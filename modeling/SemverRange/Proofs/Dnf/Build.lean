import SemverRange.Proofs.Dnf.Tidy

/-!
# Build metadata does not count

Two formulas are the same if and only if they are equal without their build metadata, and a
formula has the bounds that it has without its build metadata.  So formulas that are the same
have equal bounds, down to the identifiers, and none of these has build metadata.

## Main definitions

* `Formula.stripBuild` — the formula without build metadata.

## Main results

* `Formula.same_iff_stripBuild` — formulas that are the same differ in build metadata only.
* `Formula.normalize_stripBuild` — build metadata does not get into the bounds.
* `Formula.build_irrelevant` — **formulas that are the same are satisfied by the same versions**,
  and have equal bounds.
-/

namespace SemverRange

/-! ### Without build metadata -/

/-- The target without build metadata. -/
def Target.stripBuild : Target → Target
  | version v => version v.stripBuild
  | t => t

/-- The clause without build metadata. -/
def Clause.stripBuild : Clause → Clause
  | bare t => bare t.stripBuild
  | shorthand s t => shorthand s t.stripBuild
  | compare o t => compare o t.stripBuild
  | blank => blank

/-- The range without build metadata. -/
def Range.stripBuild : Range → Range
  | all cs => all (cs.map Clause.stripBuild)
  | between l u => between l.stripBuild u.stripBuild
  | blank => blank

/-- The formula without build metadata. -/
def Formula.stripBuild (f : Formula) : Formula := ⟨f.ranges.map Range.stripBuild⟩

/-! ### What is the same -/

/-- Elements are the same if they have the same key, and then so it is for lists. -/
theorem sameAll_iff_map {α β : Type} {same : α → α → Bool} {key : α → β}
    (h : ∀ a b, same a b = true ↔ key a = key b) (as bs : List α) :
    sameAll same as bs = true ↔ as.map key = bs.map key := by
  induction as generalizing bs with
  | nil => cases bs <;> simp [sameAll]
  | cons a as ih =>
    cases bs with
    | nil => simp [sameAll]
    | cons b bs =>
      rw [sameAll, Bool.and_eq_true, h, ih, List.map_cons, List.map_cons, List.cons_eq_cons]

theorem Version.same_iff_stripBuild (v w : Version) :
    v.same w = true ↔ v.stripBuild = w.stripBuild := by
  rw [same, decide_eq_true_eq]
  constructor
  · rintro ⟨htriple, hpre⟩
    obtain ⟨hmajor, htriple⟩ := Prod.mk.inj htriple
    obtain ⟨hminor, hpatch⟩ := Prod.mk.inj htriple
    rw [stripBuild, stripBuild, hmajor, hminor, hpatch, hpre]
  · intro h
    have hpre : v.stripBuild.prerelease = w.stripBuild.prerelease := by rw [h]
    rw [← v.triple_stripBuild, ← w.triple_stripBuild, h]
    exact ⟨rfl, hpre⟩

theorem Target.same_iff_stripBuild (s t : Target) :
    s.same t = true ↔ s.stripBuild = t.stripBuild := by
  cases s with
  | version v =>
    cases t with
    | version w => rw [same, Version.same_iff_stripBuild, stripBuild, stripBuild, version.injEq]
    | _ => simp [same, stripBuild]
  | _ => cases t <;> simp [same, stripBuild]

theorem Clause.same_iff_stripBuild (c d : Clause) :
    c.same d = true ↔ c.stripBuild = d.stripBuild := by
  cases c <;> cases d <;> simp [same, stripBuild, Target.same_iff_stripBuild]

theorem Range.same_iff_stripBuild (r s : Range) :
    r.same s = true ↔ r.stripBuild = s.stripBuild := by
  cases r with
  | all cs =>
    cases s with
    | all ds => rw [same, sameAll_iff_map Clause.same_iff_stripBuild, stripBuild, stripBuild,
        all.injEq]
    | _ => simp [same, stripBuild]
  | _ => cases s <;> simp [same, stripBuild, Target.same_iff_stripBuild]

/-- Formulas are the same if and only if they differ in build metadata only. -/
theorem Formula.same_iff_stripBuild (f g : Formula) :
    f.same g = true ↔ f.stripBuild = g.stripBuild := by
  rw [same, sameAll_iff_map Range.same_iff_stripBuild, stripBuild, stripBuild, mk.injEq]

/-! ### Bounds without build metadata -/

namespace Target

variable (t : Target)

theorem exact_stripBuild : t.stripBuild.exact = t.exact := by cases t <;> rfl

theorem comparedBy_stripBuild (o : Option Op) :
    t.stripBuild.comparedBy o = t.comparedBy o := by cases t <;> rfl

theorem tilde_stripBuild : t.stripBuild.tilde = t.tilde := by cases t <;> rfl

theorem caret_stripBuild : t.stripBuild.caret = t.caret := by cases t <;> rfl

theorem lowerEnd_stripBuild : t.stripBuild.lowerEnd = t.lowerEnd := by cases t <;> rfl

theorem upperEnd_stripBuild : t.stripBuild.upperEnd = t.upperEnd := by cases t <;> rfl

end Target

theorem Clause.bounds_stripBuild (c : Clause) : c.stripBuild.bounds = c.bounds := by
  cases c with
  | bare t => exact t.exact_stripBuild
  | shorthand s t =>
    cases s with
    | none => rfl
    | some s =>
      cases s with
      | tilde => exact t.tilde_stripBuild
      | caret => exact t.caret_stripBuild
  | compare o t => rw [stripBuild, bounds, bounds, t.comparedBy_stripBuild]
  | blank => rfl

theorem Range.bounds_stripBuild (r : Range) : r.stripBuild.bounds = r.bounds := by
  cases r with
  | all cs =>
    have hclauses : (cs.map Clause.stripBuild).mapM Clause.bounds = cs.mapM Clause.bounds := by
      rw [List.mapM_map]
      congr 1
      funext c
      exact c.bounds_stripBuild
    rw [stripBuild, bounds, bounds, hclauses]
  | between l u =>
    rw [stripBuild, bounds, bounds, l.lowerEnd_stripBuild, u.upperEnd_stripBuild]
  | blank => rfl

/-- Build metadata does not get into the bounds. -/
theorem Formula.normalize_stripBuild (f : Formula) : f.stripBuild.normalize = f.normalize := by
  rw [normalize, normalize, stripBuild, List.mapM_map]
  congr 1
  funext r
  exact r.bounds_stripBuild

/-! ### Formulas that are the same -/

/-- Formulas that are the same have equal bounds, and fail alike. -/
theorem Formula.normalize_eq_of_same {f g : Formula} (h : f.same g = true) :
    f.normalize = g.normalize := by
  rw [← f.normalize_stripBuild, (f.same_iff_stripBuild g).1 h, g.normalize_stripBuild]

/-- Bounds do not tell apart versions that are the same. -/
theorem Dnf.satisfies_eq_of_same (d : Dnf) {v w : Version} (h : v.same w = true) :
    d.satisfies v = d.satisfies w := by
  rw [satisfies, satisfies, (v.same_iff_stripBuild w).1 h]

theorem Formula.satisfies_eq_of_same {f g : Formula} {v w : Version} (hfg : f.same g = true)
    (hvw : v.same w = true) : f.satisfies v = g.satisfies w := by
  rw [satisfies, satisfies, normalize_eq_of_same hfg]
  congr 1
  funext d
  exact d.satisfies_eq_of_same hvw

theorem Formula.build_of_normalize {f : Formula} {d : Dnf} (h : f.normalize = .ok d) :
    ∀ bs ∈ d, ∀ b ∈ bs, b.version.build = [] := by
  intro bs hbs
  obtain ⟨r, -, hr⟩ := exists_of_mem_of_forall₂ (forall₂_of_mapM_eq_ok h) hbs
  by_cases hnil : r = .all []
  · -- without clauses there are no bounds
    subst hnil
    cases hr
    exact List.forall_mem_nil _
  · exact (Range.unbuilt_of_bounds hnil hr).build

/-- **Build metadata does not count.**  Formulas that are the same differ in build metadata only.
They have equal bounds, field for field, none of which has build metadata, and so the bounds are
written alike or cannot be written for the same reason.  And the one formula is satisfied by a
version if and only if the other is satisfied by any version that is the same. -/
theorem Formula.build_irrelevant {f g : Formula} {v w : Version} (hf : f.Proper)
    (hfg : f.same g = true) (hvw : v.same w = true) :
    f.stripBuild = g.stripBuild ∧
    (∃ d, f.normalize = .ok d ∧ g.normalize = .ok d ∧
      ∀ bs ∈ d, ∀ b ∈ bs, b.version.build = []) ∧
    f.normalize >>= Dnf.print = g.normalize >>= Dnf.print ∧
    ∃ b, f.satisfies v = .ok b ∧ g.satisfies w = .ok b := by
  have hnormalize : f.normalize = g.normalize := normalize_eq_of_same hfg
  obtain ⟨d, hd, -⟩ := denotes_normalize hf
  obtain ⟨b, hb, -⟩ := satisfies_eq_ok hf v
  refine ⟨(f.same_iff_stripBuild g).1 hfg, ⟨d, hd, ?_, build_of_normalize hd⟩, ?_, b, hb, ?_⟩
  · rw [← hnormalize, hd]
  · rw [hnormalize]
  · rw [← satisfies_eq_of_same hfg hvw, hb]

/-- The formula `^1.2.3-a+x <2.0.0 || 1.0.0+y - 3`, with the given build metadata for `x` and
`y`. -/
def Formula.caretOrBetween (x y : List String) : Formula :=
  ⟨[.all [.shorthand (some .caret) (.version ⟨1, 2, 3, [.alpha "a"], x⟩),
      .compare (some .lt) (.version ⟨2, 0, 0, [], []⟩)],
    .between (.version ⟨1, 0, 0, [], y⟩) (.major 3)]⟩

theorem Formula.build_irrelevant_caretOrBetween :
    (caretOrBetween ["x"] []).Proper ∧
    (caretOrBetween ["x"] []).same (caretOrBetween [] ["y", "7"]) = true ∧
    Version.same ⟨1, 2, 3, [.alpha "b"], ["z"]⟩ ⟨1, 2, 3, [.alpha "b"], []⟩ = true ∧
    (∃ d, (caretOrBetween ["x"] []).normalize = .ok d ∧
      (caretOrBetween [] ["y", "7"]).normalize = .ok d ∧
      ∀ bs ∈ d, ∀ b ∈ bs, b.version.build = []) ∧
    ∃ b, (caretOrBetween ["x"] []).satisfies ⟨1, 2, 3, [.alpha "b"], ["z"]⟩ = .ok b ∧
      (caretOrBetween [] ["y", "7"]).satisfies ⟨1, 2, 3, [.alpha "b"], []⟩ = .ok b := by
  have hproper : (caretOrBetween ["x"] []).Proper := by
    simp only [caretOrBetween, Proper, List.forall_mem_cons]
    refine ⟨.all ?_, .between (.version _) (.major 3), by simp⟩
    simp only [List.forall_mem_cons]
    exact ⟨.shorthand _ (.version _), .compare _ (.version _), by simp⟩
  have hsame : (caretOrBetween ["x"] []).same (caretOrBetween [] ["y", "7"]) = true := by decide
  have hversions : Version.same ⟨1, 2, 3, [.alpha "b"], ["z"]⟩ ⟨1, 2, 3, [.alpha "b"], []⟩ = true :=
    by decide
  obtain ⟨-, hbounds, -, hanswer⟩ := build_irrelevant hproper hsame hversions
  exact ⟨hproper, hsame, hversions, hbounds, hanswer⟩

end SemverRange
