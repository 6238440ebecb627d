import SemverRange.Proofs.Version.RoundTrip

/-!
# The notation of versions

A text is read as a version if it has the form

    version := ws* [vV]? digits "." digits "." digits ("-" ids)? ("+" ids)? ws*

and no numeral in it is too long.  Nothing else is: dashes, wildcards, operators and bars are
refused wherever they are no part of an identifier.  The form says what is printed, too: the text
without the white space and the letter, and without the zeros in front of its numerals.  Build
metadata stays as it is.

As a formula such a text is one range with one bare clause, and it is the only kind of text that
is read so.

## Main definitions

* `trimZeros` — digits without the zeros in front of them.
* `Grammar.Version` — the form, with its `text`, its `numerals`, what it denotes and its `trimmed`
  text.

## Main results

* `Grammar.Digits.renderNat_value` — a numeral is printed without the zeros in front of it.
* `Version.parse_eq_ok_iff_formula` — the two readers agree on versions.
* `Version.parse_iff_form` — **which texts are versions, what they print as, and what they are
  as formulas**.
-/

namespace SemverRange

/-! ### Zeros in front -/

/-- The digits without the zeros in front of them.  A zero with nothing behind it stays. -/
def trimZeros : List Char → List Char
  | '0' :: d :: ds => trimZeros (d :: ds)
  | ds => ds

theorem trimZeros_cons_of_ne {d : Char} (hd : d ≠ '0') (ds : List Char) :
    trimZeros (d :: ds) = d :: ds := by
  unfold trimZeros
  split
  · next h =>
    cases h
    exact absurd rfl hd
  · rfl

theorem length_trimZeros_le (ds : List Char) : (trimZeros ds).length ≤ ds.length := by
  fun_induction trimZeros ds with
  | case1 d ds ih => exact Nat.le_succ_of_le ih
  | case2 ds => exact Nat.le_refl _

/-- A digit is written for the number that it stands for, which is less than ten. -/
theorem toDigits_digit {c : Char} (hc : c.isDigit = true) :
    c.toNat - '0'.toNat < 10 ∧ Nat.toDigits 10 (c.toNat - '0'.toNat) = [c] := by
  have hbounds := toNat_of_isDigit hc
  have hzero : '0'.toNat = 48 := rfl
  have hlt : c.toNat - '0'.toNat < 10 := by omega
  refine ⟨hlt, ?_⟩
  rw [Nat.toDigits_of_lt_base hlt]
  have hchar : (c.toNat - '0'.toNat).digitChar = c := by
    apply Char.toNat_inj.1
    rw [Nat.toNat_digitChar_of_lt_ten hlt]
    omega
  rw [hchar]

/-- Digits that are read after a positive number stand after its numeral. -/
theorem toDigits_ofDigitChars {ds : List Char} (hds : ∀ c ∈ ds, c.isDigit = true) {n : ℕ}
    (hn : 0 < n) : Nat.toDigits 10 (Nat.ofDigitChars 10 ds n) = Nat.toDigits 10 n ++ ds := by
  induction ds generalizing n with
  | nil => rw [Nat.ofDigitChars_nil, List.append_nil]
  | cons c ds ih =>
    obtain ⟨hlt, hdigits⟩ := toDigits_digit (hds c List.mem_cons_self)
    have hpos : 0 < 10 * n + (c.toNat - '0'.toNat) := by omega
    have htail : ∀ d ∈ ds, d.isDigit = true := fun d hd => hds d (List.mem_cons_of_mem c hd)
    calc Nat.toDigits 10 (Nat.ofDigitChars 10 (c :: ds) n)
        = Nat.toDigits 10 (10 * n + (c.toNat - '0'.toNat)) ++ ds := by
          rw [Nat.ofDigitChars_cons, ih htail hpos]
      _ = (Nat.toDigits 10 n ++ Nat.toDigits 10 (c.toNat - '0'.toNat)) ++ ds := by
          rw [Nat.toDigits_append_toDigits (by decide) hn hlt]
      _ = Nat.toDigits 10 n ++ c :: ds := by
          rw [hdigits, List.append_assoc, List.singleton_append]

/-- The numeral of the number that digits stand for is the digits without the zeros in front. -/
theorem toDigits_value {ds : List Char} (hne : ds ≠ []) (hds : ∀ c ∈ ds, c.isDigit = true) :
    Nat.toDigits 10 (Nat.ofDigitChars 10 ds 0) = trimZeros ds := by
  induction ds with
  | nil => exact absurd rfl hne
  | cons c ds ih =>
    have htail : ∀ d ∈ ds, d.isDigit = true := fun d hd => hds d (List.mem_cons_of_mem c hd)
    by_cases hc : c = '0'
    · subst hc
      cases ds with
      | nil => rfl
      | cons d ds => exact ih (List.cons_ne_nil d ds) htail
    · -- the first digit is positive, and the others are read after it
      obtain ⟨hlt, hdigits⟩ := toDigits_digit (hds c List.mem_cons_self)
      have hpos : 0 < c.toNat - '0'.toNat := by
        rcases Nat.eq_zero_or_pos (c.toNat - '0'.toNat) with hz | hpos
        · rw [hz] at hdigits
          cases hdigits
          exact absurd rfl hc
        · exact hpos
      rw [trimZeros_cons_of_ne hc, Nat.ofDigitChars_cons, Nat.mul_zero, Nat.zero_add,
        toDigits_ofDigitChars htail hpos, hdigits, List.singleton_append]

namespace Grammar

/-! ### The form of a version -/

/-- A version with white space around it. -/
@[ext]
structure Version where
  /-- The white space before it. -/
  before : Blanks
  /-- The letter before the numbers. -/
  vee : Option Vee
  /-- The first number. -/
  major : Digits
  /-- The second number. -/
  minor : Digits
  /-- The third number. -/
  patch : Digits
  /-- The prerelease, after a dash. -/
  pre : Option Idents
  /-- The build metadata, after a plus sign. -/
  build : Option Idents
  /-- The white space after it. -/
  after : Blanks

/-- The identifier without the zeros in front of it, if it consists of digits. -/
def Ident.trimmed (i : Ident) : List Char :=
  if i.1.all Char.isDigit then trimZeros i.1 else i.1

namespace Version

variable (d : Version)

/-- The text of the version. -/
def text : List Char :=
  d.before.1 ++ ((d.vee.elim [] fun c => [c.1]) ++
    (d.major.1 ++ '.' :: (d.minor.1 ++ '.' :: (d.patch.1 ++
      ((d.pre.elim [] fun is => '-' :: is.text) ++
        ((d.build.elim [] fun is => '+' :: is.text) ++ d.after.1))))))

/-- The three numbers, and the prerelease identifiers that consist of digits. -/
def numerals : List (List Char) :=
  [d.major.1, d.minor.1, d.patch.1] ++
    d.pre.elim [] fun is => (is.1.map Subtype.val).filter fun i => i.all Char.isDigit

/-- The version that is denoted. -/
def denote : SemverRange.Version :=
  ⟨d.major.value, d.minor.value, d.patch.value, d.pre.elim [] fun is => is.1.map Ident.denote,
    d.build.elim [] fun is => is.1.map fun i => String.ofList i.1⟩

/-- The text without the white space and the letter, and without the zeros in front of the
numbers and of the prerelease identifiers that consist of digits. -/
def trimmed : List Char :=
  trimZeros d.major.1 ++ '.' :: (trimZeros d.minor.1 ++ '.' :: (trimZeros d.patch.1 ++
    ((d.pre.elim [] fun is => '-' :: ['.'].intercalate (is.1.map Ident.trimmed)) ++
      d.build.elim [] fun is => '+' :: is.text)))

/-! ### Versions as targets -/

/-- The target between the white space. -/
def target : Target :=
  { vee := d.vee
    first := .number d.major
    more := [.number d.minor, .number d.patch]
    pre := d.pre
    build := d.build
    length_more := Nat.le_refl 2
    ordered := by simp
    attached := fun _ => ⟨rfl, by simp⟩ }

/-- The formula of the one bare clause. -/
def formula : Formula := .ranges d.before (.all (.bare d.target) []) [] d.after

/-- The white space and the target make up the version. -/
theorem ext_target {d e : Version} (hbefore : d.before = e.before) (htarget : d.target = e.target)
    (hafter : d.after = e.after) : d = e := by
  obtain ⟨hvee, hmajor, hmore, hpre, hbuild⟩ := Target.mk.inj htarget
  obtain ⟨hminor, hmore⟩ := List.cons.inj hmore
  obtain ⟨hpatch, -⟩ := List.cons.inj hmore
  exact Version.ext hbefore hvee (Part.number.inj hmajor) (Part.number.inj hminor)
    (Part.number.inj hpatch) hpre hbuild hafter

theorem text_eq : d.text = d.before.1 ++ (d.target.text ++ d.after.1) := by
  simp [text, target, Target.text, Target.veeText, Target.preText, Target.buildText, Part.text]

theorem numerals_target : d.target.numerals = d.numerals := by
  simp [Target.numerals, target, numerals]

theorem denote_target : d.target.denote = .version d.denote := by
  have hvalues : (d.target.first :: d.target.more).filterMap Part.value? =
      [d.major.value, d.minor.value, d.patch.value] := by simp [target]
  rw [Target.denote, hvalues]
  rfl

theorem text_formula : d.formula.text = d.text := by
  rw [text_eq, formula, Formula.text, Range.text, Clause.text]
  simp

theorem numerals_formula : d.formula.numerals = d.numerals := by
  rw [← numerals_target, formula, Formula.numerals, Formula.targets, Range.targets,
    Clause.target]
  simp

theorem denote_formula : d.formula.denote = ⟨[.all [.bare (.version d.denote)]]⟩ := by
  rw [formula, Formula.denote, Range.denote, Clause.denote, denote_target]
  rfl

end Version

/-- A target that denotes a version consists of three numbers. -/
theorem Target.exists_version {t : Target} {v : SemverRange.Version} (b a : Blanks)
    (h : t.denote = .version v) :
    ∃ d : Version, d.before = b ∧ d.after = a ∧ d.target = t ∧ d.denote = v := by
  have hlen : ((t.first :: t.more).filterMap Part.value?).length = 3 := by
    by_contra hne
    rw [t.denote_of_length_ne hne] at h
    unfold SemverRange.Target.ofNumbers at h
    split at h <;> cases h
  have hmore : t.more.length = 2 := by
    have hle := List.length_filterMap_le Part.value? (t.first :: t.more)
    rw [hlen, List.length_cons] at hle
    have := t.length_more
    omega
  have hnum : ∀ p ∈ t.first :: t.more, p.IsNumber := by
    apply (length_filterMap_value?_iff _).1
    rw [hlen, List.length_cons, hmore]
  obtain ⟨vee, first, more, pre, build, hle, hord, hatt⟩ := t
  obtain ⟨second, third, rfl⟩ := List.length_eq_two.1 hmore
  -- none of the three parts is a wildcard
  cases first with
  | wildcard c => exact absurd (hnum (.wildcard c) (by simp)) id
  | number x =>
    cases second with
    | wildcard c => exact absurd (hnum (.wildcard c) (by simp)) id
    | number y =>
      cases third with
      | wildcard c => exact absurd (hnum (.wildcard c) (by simp)) id
      | number z =>
        let d : Version := ⟨b, vee, x, y, z, pre, build, a⟩
        have hden : (SemverRange.Target.version d.denote) = .version v :=
          d.denote_target.symm.trans h
        exact ⟨d, rfl, rfl, rfl, SemverRange.Target.version.inj hden⟩

/-! ### Printing -/

/-- A numeral is printed without the zeros in front of it. -/
theorem Digits.renderNat_value (ds : Digits) (hlen : ds.1.length ≤ Numeral.limit) :
    renderNat ds.value = .ok (trimZeros ds.1) := by
  have hdigits : Nat.toDigits 10 ds.value = trimZeros ds.1 := toDigits_value ds.2.1 ds.2.2
  have hle : (trimZeros ds.1).length ≤ Numeral.limit :=
    Nat.le_trans (length_trimZeros_le ds.1) hlen
  rw [renderNat, Numeral.write]
  simp only [hdigits, if_pos hle]
  rfl

theorem Ident.render_denote {i : Ident}
    (hlen : i.1.all Char.isDigit = true → i.1.length ≤ Numeral.limit) :
    i.denote.render = .ok i.trimmed := by
  rw [denote, trimmed]
  split
  · next hdigits =>
    let ds : Digits := ⟨i.1, i.2.1, List.all_eq_true.1 hdigits⟩
    exact ds.renderNat_value (hlen hdigits)
  · show Except.ok (String.ofList i.1).toList = Except.ok i.1
    rw [String.toList_ofList]

/-- The identifiers of a prerelease are printed one by one. -/
theorem Idents.renderPrerelease_denote {is : Idents}
    (hshort : Short ((is.1.map Subtype.val).filter fun i => i.all Char.isDigit)) :
    SemverRange.Version.renderPrerelease (is.1.map Ident.denote) =
      .ok ('-' :: ['.'].intercalate (is.1.map Ident.trimmed)) := by
  have hmapM : (is.1.map Ident.denote).mapM Identifier.render = .ok (is.1.map Ident.trimmed) := by
    apply mapM_eq_ok_map
    intro i hi
    apply Ident.render_denote
    intro hdigits
    exact hshort i.1 (List.mem_filter.2 ⟨List.mem_map_of_mem hi, hdigits⟩)
  obtain ⟨is, hne⟩ := is
  cases is with
  | nil => exact absurd rfl hne
  | cons i is =>
    rw [SemverRange.Version.renderPrerelease, hmapM]
    · rfl
    · exact List.cons_ne_nil _ _

theorem Idents.renderBuild (is : Idents) :
    SemverRange.Version.renderBuild (is.1.map fun i => String.ofList i.1) = '+' :: is.text := by
  have hmap : (is.1.map fun i => String.ofList i.1).map String.toList = is.1.map Subtype.val := by
    rw [List.map_map]
    exact List.map_congr_left fun i _ => String.toList_ofList
  obtain ⟨is, hne⟩ := is
  cases is with
  | nil => exact absurd rfl hne
  | cons i is =>
    rw [SemverRange.Version.renderBuild, hmap]
    · rfl
    · exact List.cons_ne_nil _ _

/-- What is denoted prints as the trimmed text. -/
theorem Version.print_denote {d : Version} (hshort : Short d.numerals) :
    d.denote.print = .ok (String.ofList d.trimmed) := by
  obtain ⟨hnumbers, hpre⟩ := short_append.1 hshort
  have hmajor := d.major.renderNat_value (hnumbers _ (by simp))
  have hminor := d.minor.renderNat_value (hnumbers _ (by simp))
  have hpatch := d.patch.renderNat_value (hnumbers _ (by simp))
  have hrenderPre : SemverRange.Version.renderPrerelease d.denote.prerelease =
      .ok (d.pre.elim [] fun is => '-' :: ['.'].intercalate (is.1.map Ident.trimmed)) := by
    rw [denote]
    cases hd : d.pre with
    | none => rfl
    | some is =>
      rw [hd] at hpre
      exact is.renderPrerelease_denote hpre
  have hrenderBuild : SemverRange.Version.renderBuild d.denote.build =
      d.build.elim [] fun is => '+' :: is.text := by
    rw [denote]
    cases d.build with
    | none => rfl
    | some is => exact is.renderBuild
  have hrender : d.denote.render = .ok d.trimmed := by
    rw [SemverRange.Version.render, hrenderPre, hrenderBuild]
    simp only [denote, hmajor, hminor, hpatch, trimmed, bind, Except.bind, pure, Except.pure]
    simp only [List.append_assoc, List.cons_append]
  rw [SemverRange.Version.print, hrender]
  rfl

end Grammar

/-! ### Reading -/

namespace Version

variable {v : Version} {text : String}

/-- A text of the form is read as the version that it denotes. -/
theorem parse_eq_ok_of_form {d : Grammar.Version} (htext : d.text = text.toList)
    (hshort : Short d.numerals) : Version.parse text = .ok d.denote := by
  rw [← d.numerals_target] at hshort
  exact parse_eq_ok (htext.symm.trans d.text_eq) hshort d.denote_target

/-- What is read as a version has the form. -/
theorem exists_form_of_parse (h : Version.parse text = .ok v) :
    ∃ d : Grammar.Version, d.text = text.toList ∧ Short d.numerals ∧ d.denote = v := by
  obtain ⟨b, a, t, htext, hshort, hden⟩ := exists_derivation_of_parse h
  obtain ⟨d, rfl, rfl, rfl, hd⟩ := Grammar.Target.exists_version b a hden
  rw [d.numerals_target] at hshort
  exact ⟨d, d.text_eq.trans htext.symm, hshort, hd⟩

/-- A derivation of one range with one bare clause, which is a version, has the form. -/
theorem exists_form_of_formula {g : Grammar.Formula}
    (h : g.denote = ⟨[.all [.bare (.version v)]]⟩) :
    ∃ d : Grammar.Version, d.formula = g ∧ d.denote = v := by
  cases g with
  | blank b => cases h
  | ranges b r more a =>
    obtain ⟨hrange, hmore⟩ := List.cons.inj (Formula.mk.inj h)
    obtain rfl := List.map_eq_nil_iff.1 hmore
    cases r with
    | between l x y u => cases hrange
    | all c cs =>
      obtain ⟨hclause, hcs⟩ := List.cons.inj (Range.all.inj hrange)
      obtain rfl := List.map_eq_nil_iff.1 hcs
      cases c with
      | compare o x t => cases hclause
      | shorthand s x t => cases hclause
      | bare t =>
        obtain ⟨d, rfl, rfl, rfl, hd⟩ := Grammar.Target.exists_version b a (Clause.bare.inj hclause)
        exact ⟨d, rfl, hd⟩

/-- A text is read as a version if and only if it is read as the formula of that version, bare and
alone. -/
theorem parse_eq_ok_iff_formula :
    Version.parse text = .ok v ↔ Formula.parse text = .ok ⟨[.all [.bare (.version v)]]⟩ := by
  constructor
  · intro h
    obtain ⟨d, htext, hshort, rfl⟩ := exists_form_of_parse h
    rw [← d.denote_formula]
    apply Formula.parse_eq_ok (d.text_formula.trans htext)
    rw [d.numerals_formula]
    exact hshort
  · intro h
    obtain ⟨g, htext, hshort, hden⟩ := Formula.exists_derivation_of_parse h
    obtain ⟨d, rfl, rfl⟩ := exists_form_of_formula hden
    rw [d.numerals_formula] at hshort
    exact parse_eq_ok_of_form (d.text_formula.symm.trans htext) hshort

/-- **The notation of versions.**  A text is read as a version if and only if it has the form of
one and no numeral in it has more than 4300 digits.  What is read prints as the text without the
white space and the letter, and without the zeros in front of its numerals, and with everything
else as it is.  And a text is read as a version if and only if it is read as the formula whose only
range is that version, as its only clause and without an operator. -/
theorem parse_iff_form (text : String) :
    ((∃ v, Version.parse text = .ok v) ↔ ∃ d : Grammar.Version, d.text = text.toList ∧
      ∀ ds ∈ d.numerals, ds.length ≤ Numeral.limit) ∧
    (∀ (d : Grammar.Version) (v : Version), d.text = text.toList → Version.parse text = .ok v →
      v.print = .ok (String.ofList d.trimmed)) ∧
    ∀ v, Version.parse text = .ok v ↔
      Formula.parse text = .ok ⟨[.all [.bare (.version v)]]⟩ := by
  refine ⟨⟨?_, ?_⟩, ?_, fun v => parse_eq_ok_iff_formula⟩
  · rintro ⟨v, hv⟩
    obtain ⟨d, htext, hshort, -⟩ := exists_form_of_parse hv
    exact ⟨d, htext, hshort⟩
  · rintro ⟨d, htext, hshort⟩
    exact ⟨d.denote, parse_eq_ok_of_form htext hshort⟩
  · intro d v htext hv
    obtain ⟨e, hetext, hshort, rfl⟩ := exists_form_of_parse hv
    -- a text has the form in one way only, since it has one derivation as a formula
    have hformula : e.formula = d.formula := by
      apply Grammar.Formula.text_injective
      rw [e.text_formula, d.text_formula, hetext, htext]
    obtain ⟨hbefore, hrange, -, hafter⟩ := Grammar.Formula.ranges.inj hformula
    have htarget : e.target = d.target := Grammar.Clause.bare.inj (Grammar.Range.all.inj hrange).1
    obtain rfl : e = d := Grammar.Version.ext_target hbefore htarget hafter
    exact Grammar.Version.print_denote hshort

/-- The text ` v01.2.03-007.a-+001 ` as a derivation. -/
def padded : Grammar.Version where
  before := ⟨[' '], List.all_eq_true.1 rfl⟩
  vee := some ⟨'v', .inl rfl⟩
  major := ⟨['0', '1'], List.cons_ne_nil _ _, List.all_eq_true.1 rfl⟩
  minor := ⟨['2'], List.cons_ne_nil _ _, List.all_eq_true.1 rfl⟩
  patch := ⟨['0', '3'], List.cons_ne_nil _ _, List.all_eq_true.1 rfl⟩
  pre := some ⟨[⟨['0', '0', '7'], List.cons_ne_nil _ _, List.all_eq_true.1 rfl⟩,
    ⟨['a', '-'], List.cons_ne_nil _ _, List.all_eq_true.1 rfl⟩], List.cons_ne_nil _ _⟩
  build := some ⟨[⟨['0', '0', '1'], List.cons_ne_nil _ _, List.all_eq_true.1 rfl⟩],
    List.cons_ne_nil _ _⟩
  after := ⟨[' '], List.all_eq_true.1 rfl⟩

theorem parse_iff_form_padded :
    padded.text = " v01.2.03-007.a-+001 ".toList ∧
    Version.parse " v01.2.03-007.a-+001 " = .ok ⟨1, 2, 3, [.num 7, .alpha "a-"], ["001"]⟩ ∧
    Version.print ⟨1, 2, 3, [.num 7, .alpha "a-"], ["001"]⟩ = .ok "1.2.3-7.a-+001" := by
  have htext : padded.text = " v01.2.03-007.a-+001 ".toList := by decide
  have hparse : Version.parse " v01.2.03-007.a-+001 " =
      .ok ⟨1, 2, 3, [.num 7, .alpha "a-"], ["001"]⟩ := by decide +kernel
  exact ⟨htext, hparse, (parse_iff_form _).2.1 padded _ htext hparse⟩

end Version

end SemverRange
