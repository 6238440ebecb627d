import SemverRange.Proofs.Dnf.Build
import SemverRange.Proofs.Formula.WellFormed

/-!
# The layout of the bounds

Normalization does not look whether a formula is in order, and reading does not look ahead to
normalization: what is read is well formed, and this is more than normalization needs.  A proper
formula always has bounds.  They are laid out as the formula is: there is one conjunction for
each range, and in it one block of bounds for each clause, in the order of the clauses.

## Main definitions

* `Range.LaidOut` — the bounds of a range, block by block.
* `Version.Checked` — a version that its checked constructor makes.

## Main results

* `Range.laidOut_of_bounds` — the bounds of a range are laid out as the range is.
* `Formula.checked_of_normalize` — every bound is a version that can be made.
* `Formula.wellFormed_laidOut` — **what is read is well formed, and a proper formula has bounds
  in its own order**, which can be checked against any version.
-/

namespace SemverRange

/-! ### Blocks of bounds -/

/-- The bounds consist of one block for each clause, or of what the lower end sets and what the
upper end sets.  Between two stars, which set no bounds, there is one from below. -/
inductive Range.LaidOut : Range → Conjunction → Prop
  | all {cs : List Clause} {bss : List Conjunction} :
      List.Forall₂ (fun c bs => c.bounds = .ok bs ∧ bs ≠ []) cs bss → LaidOut (.all cs) bss.flatten
  | between {l u : Target} {lower upper : Conjunction} :
      l.lowerEnd = .ok lower → u.upperEnd = .ok upper → lower ++ upper ≠ [] →
        LaidOut (.between l u) (lower ++ upper)
  | stars : LaidOut (.between .any .any) [.atLeast .zero]

/-- Only a range without clauses has no bounds. -/
theorem Range.LaidOut.ne_nil {r : Range} {bs : Conjunction} (h : r.LaidOut bs)
    (hr : r ≠ .all []) : bs ≠ [] := by
  cases h with
  | all hall =>
    cases hall with
    | nil => exact absurd rfl hr
    | cons hc _ =>
      rw [List.flatten_cons]
      exact List.append_ne_nil_of_left_ne_nil hc.2 _
  | between _ _ hne => exact hne
  | stars => exact List.cons_ne_nil _ _

/-- The bounds of a range are laid out as the range is. -/
theorem Range.laidOut_of_bounds {r : Range} (hr : r.Proper) {bs : Conjunction}
    (h : r.bounds = .ok bs) : r.LaidOut bs := by
  cases hr with
  | all hcs =>
    obtain ⟨bss, hbss, h⟩ := bind_eq_ok h
    cases h
    apply LaidOut.all
    exact (forall₂_of_mapM_eq_ok hbss).imp fun c bs hc => ⟨hc, (Clause.unbuilt_of_bounds hc).ne_nil⟩
  | @between l u hl hu =>
    obtain ⟨lower, hlower, -, hl0⟩ := Target.denotes_lowerEnd hl
    obtain ⟨upper, hupper, -, hu0⟩ := Target.denotes_upperEnd hu
    by_cases hany : l = .any ∧ u = .any
    · obtain ⟨rfl, rfl⟩ := hany
      cases h
      exact .stars
    · have hne : lower ++ upper ≠ [] := by
        rw [ne_eq, List.append_eq_nil_iff, hl0, hu0]
        exact hany
      rw [bounds, hlower, hupper] at h
      simp only [bind, Except.bind, List.isEmpty_eq_false_iff.2 hne] at h
      cases h
      exact .between hlower hupper hne

/-! ### Versions that can be made -/

/-- The version is what its checked constructor makes of its parts. -/
def Version.Checked (v : Version) : Prop :=
  ofParts? v.major v.minor v.patch v.prerelease v.build = .ok v

instance (v : Version) : Decidable v.Checked :=
  inferInstanceAs (Decidable (Version.ofParts? .. = .ok v))

theorem Version.checked_iff (v : Version) :
    v.Checked ↔ .alpha "" ∉ v.prerelease ∧ "" ∉ v.build := by
  have hnumbers : ¬ ((v.major : ℤ) < 0 ∨ (v.minor : ℤ) < 0 ∨ (v.patch : ℤ) < 0) := by omega
  rw [Checked, ofParts?, if_neg hnumbers]
  simp

/-- The bounds of a formula are versions that can be made, if the versions are that it is written
with. -/
theorem Formula.checked_of_normalize {f : Formula} (hf : f.Proper) {d : Dnf}
    (h : f.normalize = .ok d)
    (hversions : ∀ r ∈ f.ranges, ∀ v, .version v ∈ r.targets → v.Checked) :
    ∀ bs ∈ d, ∀ b ∈ bs, b.version.Checked := by
  intro bs hbs b hb
  obtain ⟨r, hr, hrbs⟩ := exists_of_mem_of_forall₂ (forall₂_of_mapM_eq_ok h) hbs
  rw [Version.checked_iff, build_of_normalize h bs hbs b hb]
  refine ⟨?_, List.not_mem_nil⟩
  rcases Range.prerelease_of_bounds (hf r hr) hrbs hb with hnil | hpre
  · rw [hnil]
    exact List.not_mem_nil
  · obtain ⟨v, hv, hvb⟩ := Range.exists_of_mem_prereleases hpre
    have hpre : v.prerelease = b.version.prerelease := by rw [← hvb]; rfl
    rw [← hpre]
    exact (v.checked_iff.1 (hversions r hr v hv)).1

/-! ### Formulas -/

/-- Checking a version against the bounds of a proper formula gives an answer. -/
theorem Formula.exists_satisfies_of_normalize {f : Formula} (hf : f.Proper) {d : Dnf}
    (h : f.normalize = .ok d) (v : Version) : ∃ b, d.satisfies v = .ok b := by
  obtain ⟨b, hb, -⟩ := satisfies_eq_ok hf v
  rw [satisfies, h] at hb
  exact ⟨b, hb⟩

/-- **Nothing fails after reading.**  Every formula that is read from a text is well formed.  And
every proper formula has bounds: one conjunction for each range, in the order of the ranges, which
is laid out as the range is, and is empty only if there are no clauses.  No number of a bound is
negative, and the bounds are versions that can be made if the versions are that the formula is
written with.  The bounds can be checked against any version. -/
theorem Formula.wellFormed_laidOut :
    (∀ text f, Formula.parse text = .ok f → f.WellFormed ∧ f.Proper) ∧
    ∀ f : Formula, f.Proper → ∃ d, f.normalize = .ok d ∧
      List.Forall₂ (fun r bs => r.LaidOut bs ∧ (r ≠ .all [] → bs ≠ [])) f.ranges d ∧
      (∀ bs ∈ d, ∀ b ∈ bs, (0 : ℤ) ≤ b.version.major ∧ (0 : ℤ) ≤ b.version.minor ∧
        (0 : ℤ) ≤ b.version.patch) ∧
      ((∀ r ∈ f.ranges, ∀ v, .version v ∈ r.targets → v.Checked) →
        ∀ bs ∈ d, ∀ b ∈ bs, b.version.Checked) ∧
      ∀ v, ∃ b, d.satisfies v = .ok b := by
  constructor
  · intro text f h
    have hf : f.WellFormed := wellFormed_of_parse h
    exact ⟨hf, hf.proper⟩
  · intro f hf
    obtain ⟨d, hd, hlaid⟩ : ∃ d, f.ranges.mapM Range.bounds = .ok d ∧
        List.Forall₂ (fun r bs => r.LaidOut bs ∧ (r ≠ .all [] → bs ≠ [])) f.ranges d := by
      apply exists_mapM_eq_ok
      intro r hr
      obtain ⟨bs, hbs, -⟩ := Range.denotes_bounds (hf r hr)
      have hlaid : r.LaidOut bs := Range.laidOut_of_bounds (hf r hr) hbs
      exact ⟨bs, hbs, hlaid, hlaid.ne_nil⟩
    exact ⟨d, hd, hlaid, fun bs _ b _ => ⟨by omega, by omega, by omega⟩, checked_of_normalize hf hd,
      exists_satisfies_of_normalize hf hd⟩

/-- The formula of the text `1.2.3-a+b <x || * - * || ~0.4`. -/
def Formula.belowAny : Formula :=
  ⟨[.all [.bare (.version ⟨1, 2, 3, [.alpha "a"], ["b"]⟩), .compare (some .lt) .any],
    .between .any .any, .all [.shorthand (some .tilde) (.minor 0 4)]]⟩

theorem Formula.wellFormed_laidOut_belowAny :
    Formula.parse "1.2.3-a+b <x || * - * || ~0.4" = .ok belowAny ∧ belowAny.WellFormed ∧
    ∃ d, belowAny.normalize = .ok d ∧
      List.Forall₂ (fun r bs => r.LaidOut bs ∧ (r ≠ .all [] → bs ≠ [])) belowAny.ranges d ∧
      (∀ bs ∈ d, ∀ b ∈ bs, b.version.Checked) ∧ ∀ v, ∃ b, d.satisfies v = .ok b := by
  have hparse : Formula.parse "1.2.3-a+b <x || * - * || ~0.4" = .ok belowAny := by decide +kernel
  obtain ⟨hf, hproper⟩ := wellFormed_laidOut.1 _ _ hparse
  have hversions : ∀ r ∈ belowAny.ranges, ∀ v, .version v ∈ r.targets → v.Checked := by
    intro r hr v hv
    simp only [belowAny, List.mem_cons, List.not_mem_nil, or_false] at hr
    rcases hr with rfl | rfl | rfl <;> simp [Range.targets, Clause.target] at hv
    subst hv
    decide
  obtain ⟨d, hd, hlaid, -, hchecked, hsatisfies⟩ := wellFormed_laidOut.2 belowAny hproper
  exact ⟨hparse, hf, d, hd, hlaid, hchecked hversions, hsatisfies⟩

end SemverRange
