import SemverRange.Proofs.Dnf.Tidy
import SemverRange.Proofs.Formula.WellFormed

/-!
# Bounds that are written read back

Bounds are written as the formula of their comparators.  The formula that is read from the text
has the same bounds, except that build metadata is gone; the equality signs that are not
written do not matter.  Bounds that come from a text have no build metadata, and the only thing
that can keep them from being written is a ceiling whose numeral is too long: one more than the
greatest number that can be read is the first that cannot be written.

## Main definitions

* `Dnf.WellFormed` — bounds that can be written.
* `Dnf.stripBuild` — the bounds without build metadata.
* `Dnf.TooLong` — some bound has a number whose numeral is too long.

## Main results

* `Dnf.parse_print_of_wellFormed` — well-formed bounds are written, and read back.
* `Dnf.print_eq_error_iff` — tidy bounds are not written if and only if they are too long.
* `Dnf.normalize_parse_print` — **bounds that are written read back**.
-/

namespace SemverRange

/-! ### Well-formed bounds -/

/-- The bound has an operator and a well-formed version. -/
structure Comparator.WellFormed (b : Comparator) : Prop where
  /-- The operator is not blank. -/
  op : b.op.isSome
  /-- The numbers and identifiers of the version are well formed. -/
  version : b.version.WellFormed

/-- There is a conjunction, none is empty, and all bounds are well formed. -/
structure Dnf.WellFormed (d : Dnf) : Prop where
  /-- There is a conjunction. -/
  ne_nil : d ≠ []
  /-- No conjunction is empty. -/
  conjunction_ne_nil : ∀ bs ∈ d, bs ≠ []
  /-- All bounds are well formed. -/
  bounds : ∀ bs ∈ d, ∀ b ∈ bs, b.WellFormed

/-- The bound without build metadata. -/
def Comparator.stripBuild (b : Comparator) : Comparator :=
  { b with version := b.version.stripBuild }

/-- The bounds without build metadata. -/
def Dnf.stripBuild (d : Dnf) : Dnf := d.map (·.map Comparator.stripBuild)

/-- The clause that a bound is written as. -/
abbrev Comparator.toClause (b : Comparator) : Clause := .compare b.op (.version b.version)

/-- The range that bounds are written as. -/
abbrev Conjunction.toRange (bs : Conjunction) : Range := .all (bs.map Comparator.toClause)

theorem Comparator.WellFormed.toClause {b : Comparator} (hb : b.WellFormed) :
    b.toClause.WellFormed := by
  obtain ⟨o, ho⟩ := Option.isSome_iff_exists.1 hb.op
  rw [Comparator.toClause, ho]
  exact .compare o (.version hb.version)

theorem Conjunction.wellFormed_toRange {bs : Conjunction} (hne : bs ≠ [])
    (hbs : ∀ b ∈ bs, b.WellFormed) : bs.toRange.WellFormed :=
  .all (fun hnil => hne (List.map_eq_nil_iff.1 hnil))
    (List.forall_mem_map.2 fun b hb => (hbs b hb).toClause)

theorem Dnf.WellFormed.toFormula {d : Dnf} (h : d.WellFormed) : d.toFormula.WellFormed :=
  ⟨fun hnil => h.ne_nil (List.map_eq_nil_iff.1 hnil), List.forall_mem_map.2 fun bs hbs =>
    Conjunction.wellFormed_toRange (h.conjunction_ne_nil bs hbs) (h.bounds bs hbs)⟩

/-! ### Normalizing the formula of the bounds -/

theorem Comparator.bounds_toClause (b : Comparator) : b.toClause.bounds = .ok [b.stripBuild] :=
  rfl

/-- The formula of bounds has the same bounds, without build metadata. -/
theorem Dnf.normalize_toFormula (d : Dnf) : d.toFormula.normalize = .ok d.stripBuild := by
  refine mapM_eq_ok_map (fun bs _ => ?_)
  rw [Range.bounds, mapM_eq_ok_map fun b _ => Comparator.bounds_toClause b]
  exact congrArg Except.ok (List.flatMap_def.symm.trans List.map_eq_flatMap.symm)

/-- **Well-formed bounds are written, and read back** without build metadata. -/
theorem Dnf.parse_print_of_wellFormed {d : Dnf} (h : d.WellFormed) :
    ∃ text f, d.print = .ok text ∧ Formula.parse text = .ok f ∧ f.normalize = .ok d.stripBuild := by
  obtain ⟨g, hrender, hden, hshort⟩ := Formula.exists_derivation_of_render h.toFormula
  refine ⟨String.ofList g.text, g.denote, ?_, Formula.parse_eq_ok String.toList_ofList.symm hshort,
    ?_⟩
  · rw [print, Formula.print, hrender]
    rfl
  · rw [hden, Formula.normalize_bareEquals, normalize_toFormula]

/-! ### Numerals that are too long -/

/-- One of the three numbers has a numeral that is too long to be written. -/
def Version.TooLong (v : Version) : Prop :=
  ∃ n ∈ [v.major, v.minor, v.patch], Numeral.limit < (Nat.toDigits 10 n).length

/-- Some bound has a number whose numeral is too long to be written. -/
def Dnf.TooLong (d : Dnf) : Prop := ∃ bs ∈ d, ∃ b ∈ bs, b.version.TooLong

/-- What writing a number that is too long ends with. -/
abbrev Fault.tooLongToWrite : Fault := .ofNumeral .tooLongToWrite

theorem renderNat_eq_error {n : ℕ} (h : Numeral.limit < (Nat.toDigits 10 n).length) :
    renderNat n = .error .tooLongToWrite := by
  have hnot : ¬ (Nat.toDigits 10 n).length ≤ Numeral.limit := Nat.not_le.2 h
  simp [renderNat, Numeral.write, hnot, Except.mapError]

/-- A number is written, or its numeral is too long. -/
theorem renderNat_cases (n : ℕ) :
    (∃ cs, renderNat n = .ok cs) ∨
      renderNat n = .error .tooLongToWrite ∧ Numeral.limit < (Nat.toDigits 10 n).length := by
  rcases Nat.lt_or_ge Numeral.limit (Nat.toDigits 10 n).length with h | h
  · exact .inr ⟨renderNat_eq_error h, h⟩
  · obtain ⟨ds, hds, -⟩ := exists_digits_of_renderNat (legible_natCast.2 h)
    exact .inl ⟨ds.1, hds⟩

/-- The numbers are written in order, and the first that is too long is reported. -/
theorem Version.render_eq_error {v : Version} (h : v.TooLong) :
    v.render = .error .tooLongToWrite := by
  obtain ⟨n, hn, hlong⟩ := h
  have herror := renderNat_eq_error hlong
  rw [render]
  rcases renderNat_cases v.major with ⟨major, hmajor⟩ | ⟨hmajor, -⟩
  · rcases renderNat_cases v.minor with ⟨minor, hminor⟩ | ⟨hminor, -⟩
    · rcases renderNat_cases v.patch with ⟨patch, hpatch⟩ | ⟨hpatch, -⟩
      · -- none of the three is too long
        simp only [List.mem_cons, List.not_mem_nil, or_false] at hn
        rcases hn with rfl | rfl | rfl
        · rw [hmajor] at herror; cases herror
        · rw [hminor] at herror; cases herror
        · rw [hpatch] at herror; cases herror
      · rw [hmajor, hminor, hpatch]
        rfl
    · rw [hmajor, hminor]
      rfl
  · rw [hmajor]
    rfl

/-- A tidy bound is well formed, unless a number is too long. -/
theorem Comparator.Tidy.wellFormed {b : Comparator} (hb : b.Tidy) (h : ¬ b.version.TooLong) :
    b.WellFormed := by
  have hlegible : ∀ n ∈ [b.version.major, b.version.minor, b.version.patch], Legible (n : ℕ) :=
    fun n hn => legible_natCast.2 (Nat.le_of_not_lt fun hlong => h ⟨n, hn, hlong⟩)
  refine ⟨hb.op, hlegible _ (by simp), hlegible _ (by simp), hlegible _ (by simp), hb.prerelease,
    ?_⟩
  rw [hb.build]
  exact nofun

theorem Dnf.Tidy.wellFormed {d : Dnf} (hd : d.Tidy) (h : ¬ d.TooLong) : d.WellFormed :=
  ⟨hd.ne_nil, hd.conjunction_ne_nil, fun bs hbs b hb =>
    (hd.bounds bs hbs b hb).wellFormed fun hlong => h ⟨bs, hbs, b, hb, hlong⟩⟩

/-- Tidy bounds have no build metadata to lose. -/
theorem Dnf.Tidy.stripBuild_eq {d : Dnf} (hd : d.Tidy) : d.stripBuild = d := by
  have hbound : ∀ bs ∈ d, ∀ b ∈ bs, b.stripBuild = id b := by
    rintro bs hbs ⟨o, ⟨major, minor, patch, pre, build⟩⟩ hb
    cases (hd.bounds bs hbs _ hb).build
    rfl
  have hconjunction : ∀ bs ∈ d, bs.map Comparator.stripBuild = id bs := fun bs hbs => by
    rw [List.map_congr_left (hbound bs hbs), List.map_id]
    rfl
  rw [stripBuild, List.map_congr_left hconjunction, List.map_id]

/-! ### Bounds that are not written -/

/-- If one element fails, and no element fails in another way, then the list fails in that
way. -/
theorem mapM_eq_error {ε α β : Type} {f : α → Except ε β} {e : ε} {as : List α}
    (h : ∀ a ∈ as, (∃ b, f a = .ok b) ∨ f a = .error e) (hbad : ∃ a ∈ as, f a = .error e) :
    as.mapM f = .error e := by
  induction as with
  | nil =>
    obtain ⟨a, ha, -⟩ := hbad
    cases ha
  | cons a as ih =>
    rw [List.mapM_cons]
    rcases h a List.mem_cons_self with ⟨b, hb⟩ | ha
    · have hrest : ∃ a' ∈ as, f a' = .error e := by
        obtain ⟨a', ha', he⟩ := hbad
        rcases List.mem_cons.1 ha' with rfl | ha'
        · rw [hb] at he
          cases he
        · exact ⟨a', ha', he⟩
      rw [hb, ih (fun a' ha' => h a' (List.mem_cons_of_mem a ha')) hrest]
      rfl
    · rw [ha]
      rfl

/-- A comparison is not written if its version is not. -/
theorem Clause.render_compare_eq_error {o : Op} {v : Version} {e : Fault}
    (h : v.render = .error e) : (Clause.compare (some o) (.version v)).render = .error e := by
  cases o with
  | eq => exact h
  | _ =>
    simp only [render, Target.render, h]
    rfl

theorem Comparator.Tidy.render_eq_error {b : Comparator} (hb : b.Tidy)
    (h : b.version.TooLong) : b.toClause.render = .error .tooLongToWrite := by
  obtain ⟨o, ho⟩ := Option.isSome_iff_exists.1 hb.op
  rw [toClause, ho]
  exact Clause.render_compare_eq_error (Version.render_eq_error h)

/-- A tidy bound is written, or it is too long. -/
theorem Comparator.Tidy.render_cases {b : Comparator} (hb : b.Tidy) :
    (∃ cs, b.toClause.render = .ok cs) ∨ b.toClause.render = .error .tooLongToWrite := by
  by_cases hlong : b.version.TooLong
  · exact .inr (hb.render_eq_error hlong)
  · obtain ⟨d, hd, -⟩ := Clause.exists_derivation_of_render (hb.wellFormed hlong).toClause
    exact .inl ⟨d.text, hd⟩

theorem Conjunction.render_eq_error {bs : Conjunction} (hbs : ∀ b ∈ bs, b.Tidy)
    (h : ∃ b ∈ bs, b.version.TooLong) : bs.toRange.render = .error .tooLongToWrite := by
  obtain ⟨b, hb, hlong⟩ := h
  have hmapM : (bs.map Comparator.toClause).mapM Clause.render = .error .tooLongToWrite :=
    mapM_eq_error (List.forall_mem_map.2 fun b hb => (hbs b hb).render_cases)
      ⟨_, List.mem_map.2 ⟨b, hb, rfl⟩, (hbs b hb).render_eq_error hlong⟩
  rw [Range.render, hmapM]
  rfl

/-- Tidy bounds are written, or one of them is too long. -/
theorem Conjunction.render_cases {bs : Conjunction} (hne : bs ≠ []) (hbs : ∀ b ∈ bs, b.Tidy) :
    (∃ cs, bs.toRange.render = .ok cs) ∨ bs.toRange.render = .error .tooLongToWrite := by
  by_cases hlong : ∃ b ∈ bs, b.version.TooLong
  · exact .inr (render_eq_error hbs hlong)
  · have hwellFormed : ∀ b ∈ bs, b.WellFormed := fun b hb =>
      (hbs b hb).wellFormed fun h => hlong ⟨b, hb, h⟩
    obtain ⟨d, hd, -⟩ := Range.exists_derivation_of_render (wellFormed_toRange hne hwellFormed)
    exact .inl ⟨d.text, hd⟩

/-- **Tidy bounds fail to be written in one way only**, and exactly if a numeral is too
long. -/
theorem Dnf.print_eq_error_iff {d : Dnf} (hd : d.Tidy) (e : Fault) :
    d.print = .error e ↔ e = .tooLongToWrite ∧ d.TooLong := by
  by_cases hlong : d.TooLong
  · have hmapM : d.toFormula.ranges.mapM Range.render = .error .tooLongToWrite := by
      refine mapM_eq_error (List.forall_mem_map.2 fun bs hbs =>
        Conjunction.render_cases (hd.conjunction_ne_nil bs hbs) (hd.bounds bs hbs)) ?_
      obtain ⟨bs, hbs, hlong⟩ := hlong
      exact ⟨bs.toRange, List.mem_map.2 ⟨bs, hbs, rfl⟩,
        Conjunction.render_eq_error (hd.bounds bs hbs) hlong⟩
    have hprint : d.print = .error .tooLongToWrite := by
      rw [print, Formula.print, Formula.render, hmapM]
      rfl
    rw [hprint, Except.error.injEq, eq_comm]
    exact (and_iff_left hlong).symm
  · obtain ⟨text, f, hprint, -⟩ := parse_print_of_wellFormed (hd.wellFormed hlong)
    rw [hprint]
    constructor
    · intro h
      cases h
    · intro h
      exact absurd h.2 hlong

/-! ### Reading back -/

/-- **Bounds that are written read back.**  Well-formed bounds are written, and what is read from
the text has the same bounds without their build metadata, field for field and in the same
order.  The bounds of a formula that was read from a text are written, unless the numeral of
some number in them is too long, which is the only fault; and then what is read from what is
written has exactly the same bounds. -/
theorem Dnf.normalize_parse_print :
    (∀ d : Dnf, d.WellFormed →
      ∃ text f, d.print = .ok text ∧ Formula.parse text = .ok f ∧
        f.normalize = .ok d.stripBuild) ∧
    ∀ text f, Formula.parse text = .ok f → ∃ d, f.normalize = .ok d ∧
      (∀ e, d.print = .error e ↔ e = .tooLongToWrite ∧ d.TooLong) ∧
      (¬ d.TooLong → ∃ text' f', d.print = .ok text' ∧ Formula.parse text' = .ok f' ∧
        f'.normalize = .ok d) := by
  refine ⟨fun d hd => parse_print_of_wellFormed hd, fun text f hparse => ?_⟩
  have hf := Formula.wellFormed_of_parse hparse
  obtain ⟨d, hnormalize, -⟩ := Formula.denotes_normalize hf.proper
  have hd := Formula.tidy_of_normalize hf hnormalize
  refine ⟨d, hnormalize, print_eq_error_iff hd, fun hshort => ?_⟩
  obtain ⟨text', f', hprint, hparse', hnormalize'⟩ :=
    parse_print_of_wellFormed (hd.wellFormed hshort)
  rw [hd.stripBuild_eq] at hnormalize'
  exact ⟨text', f', hprint, hparse', hnormalize'⟩

/-- The bounds `1.2.3-a-.7+b <2.0.0 || >=0.0.0`, with an equality sign and build metadata that do
not come back. -/
def Dnf.equalsOrAny : Dnf :=
  [[⟨some .eq, ⟨1, 2, 3, [.alpha "a-", .num 7], ["b"]⟩⟩, .below (.release 2 0 0)],
    [.atLeast .zero]]

/-- The formula `^9…9.x.x` with the greatest number that can be read. -/
def Formula.caretNines : Formula :=
  ⟨[.all [.shorthand (some .caret) (.major (10 ^ Numeral.limit - 1 : ℕ))]]⟩

theorem Dnf.wellFormed_equalsOrAny : equalsOrAny.WellFormed := by
  have htwo : (Version.release 2 0 0).WellFormed :=
    ⟨by decide, by decide, by decide, nofun, nofun⟩
  have hzero : Version.zero.WellFormed := ⟨by decide, by decide, by decide, nofun, nofun⟩
  have hversion : Version.WellFormed ⟨1, 2, 3, [.alpha "a-", .num 7], ["b"]⟩ := by
    refine ⟨by decide, by decide, by decide, ?_, by decide⟩
    exact List.forall_mem_cons.2 ⟨.alpha (by decide) (by decide),
      List.forall_mem_singleton.2 (.num (by decide))⟩
  refine ⟨by decide, by decide, List.forall_mem_cons.2 ⟨?_, List.forall_mem_singleton.2 ?_⟩⟩
  · exact List.forall_mem_cons.2 ⟨⟨rfl, hversion⟩,
      List.forall_mem_singleton.2 ⟨rfl, htwo⟩⟩
  · exact List.forall_mem_singleton.2 ⟨rfl, hzero⟩

theorem Formula.wellFormed_caretNines : caretNines.WellFormed := by
  have hlt : 10 ^ Numeral.limit - 1 < 10 ^ Numeral.limit :=
    Nat.sub_lt (Nat.pow_pos (by decide)) Nat.one_pos
  have hlegible : Legible (10 ^ Numeral.limit - 1 : ℕ) :=
    legible_natCast.2 ((Nat.length_toDigits_le_iff (by decide) (by decide)).2 hlt)
  refine ⟨List.cons_ne_nil _ _, List.forall_mem_singleton.2 ?_⟩
  exact .all (List.cons_ne_nil _ _)
    (List.forall_mem_singleton.2 (.shorthand .caret (.major hlegible)))

theorem Formula.normalize_caret_major (m : ℕ) :
    (⟨[.all [.shorthand (some .caret) (.major m)]]⟩ : Formula).normalize =
      .ok [[.atLeast (.release m 0 0), .below (.release (m + 1) 0 0)]] := by
  have hcaret : (Target.major m).caret =
      .ok [.atLeast (.release m 0 0), .below (.release (m + 1) 0 0)] := by
    simp only [Target.caret, Target.floor_major]
    rfl
  simp only [normalize, Range.bounds, Clause.bounds, List.mapM_cons, List.mapM_nil, hcaret]
  rfl

/-- The second input is read from a text, and its ceiling is too long to be written. -/
theorem Dnf.normalize_parse_print_caretNines :
    (equalsOrAny.WellFormed ∧ ∃ text f, equalsOrAny.print = .ok text ∧
      Formula.parse text = .ok f ∧ f.normalize = .ok equalsOrAny.stripBuild) ∧
    ∃ text, Formula.parse text = .ok .caretNines ∧ ∃ d, Formula.caretNines.normalize = .ok d ∧
      (∀ e, d.print = .error e ↔ e = .tooLongToWrite ∧ d.TooLong) ∧
      (¬ d.TooLong → ∃ text' f', d.print = .ok text' ∧ Formula.parse text' = .ok f' ∧
        f'.normalize = .ok d) ∧ d.TooLong := by
  obtain ⟨g, -, hden, hshort⟩ := Formula.exists_derivation_of_render Formula.wellFormed_caretNines
  have hparse : Formula.parse (String.ofList g.text) = .ok .caretNines := by
    rw [Formula.parse_eq_ok String.toList_ofList.symm hshort, hden]
    rfl
  obtain ⟨d, hd, herror, hback⟩ := normalize_parse_print.2 _ .caretNines hparse
  refine ⟨⟨wellFormed_equalsOrAny, normalize_parse_print.1 _ wellFormed_equalsOrAny⟩,
    String.ofList g.text, hparse, d, hd, herror, hback, ?_⟩
  rw [Formula.caretNines, Formula.normalize_caret_major] at hd
  cases hd
  have hlong : (Version.release (10 ^ Numeral.limit - 1 + 1) 0 0).TooLong := by
    refine ⟨10 ^ Numeral.limit - 1 + 1, List.mem_cons_self, ?_⟩
    rw [← Nat.not_le, Nat.length_toDigits_le_iff (by decide) (by decide)]
    omega
  exact ⟨_, List.mem_singleton_self _, _, List.mem_cons_of_mem _ (List.mem_singleton_self _), hlong⟩

end SemverRange
