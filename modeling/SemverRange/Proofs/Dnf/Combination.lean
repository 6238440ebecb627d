import SemverRange.Proofs.Dnf.Bounds

/-!
# Formulas made of formulas

Ranges are alternatives: a version satisfies a formula if one of its ranges admits the version, so
neither the order of the ranges nor their number matters.  Nor do those of the clauses of a range,
which have to hold together.

For releases more clauses leave less.  A prerelease has moreover to be asked for in writing, and
one clause can ask for it in the place of another: so a range with more clauses may admit a
prerelease that it would not admit without them.  What such a range admits lies between what both
halves admit and what one of them does.

## Main definitions

* `Range.Admits` — the range has the version in its region, and asks for it if it has to.
* `Range.Rearranged`, `Formula.Rearranged` — the same ranges with the same clauses, in another
  order and number.

## Main results

* `Range.satisfies_alone` — a formula of one range.
* `Formula.satisfies_combined` — **what satisfies formulas that are put together**.
-/

namespace SemverRange

/-- The version lies in the region of the range, which asks for it if it is a prerelease. -/
def Range.Admits (r : Range) (v : Version) : Prop :=
  (v.isPrerelease = true → r.Names v) ∧ v.rank ∈ r.region

/-- Both ranges have the same clauses, in some order and number, or they are the same. -/
inductive Range.Rearranged : Range → Range → Prop
  | all {cs ds : List Clause} : (∀ c, c ∈ cs ↔ c ∈ ds) → Rearranged (.all cs) (.all ds)
  | same (r : Range) : Rearranged r r

/-- Both formulas have the same ranges, in some order and number, up to rearranged clauses. -/
structure Formula.Rearranged (f g : Formula) : Prop where
  there : ∀ r ∈ f.ranges, ∃ s ∈ g.ranges, r.Rearranged s
  back : ∀ s ∈ g.ranges, ∃ r ∈ f.ranges, r.Rearranged s

/-! ### Order and number do not matter -/

namespace Range

variable {r s : Range} (h : r.Rearranged s)
include h

theorem Rearranged.proper (hr : r.Proper) : s.Proper := by
  cases h with
  | all hcs =>
    cases hr with
    | all hproper => exact .all fun c hc => hproper c ((hcs c).2 hc)
  | same => exact hr

theorem Rearranged.admits_iff (v : Version) : r.Admits v ↔ s.Admits v := by
  cases h with
  | @all cs ds hcs =>
    have hregion : (Range.all cs).region = (Range.all ds).region := by
      ext x
      exact forall_congr' fun c => by rw [hcs c]
    have htargets (t : Target) : t ∈ (Range.all cs).targets ↔ t ∈ (Range.all ds).targets := by
      simp only [targets, List.mem_map, hcs]
    rw [Admits, Admits, Names, Names, hregion]
    simp only [htargets]
  | same => exact Iff.rfl

end Range

namespace Formula

variable {f g : Formula} (h : f.Rearranged g)
include h

theorem Rearranged.proper (hf : f.Proper) : g.Proper := by
  intro s hs
  obtain ⟨r, hr, hrs⟩ := h.back s hs
  exact hrs.proper (hf r hr)

theorem Rearranged.exists_admits_iff (v : Version) :
    (∃ r ∈ f.ranges, r.Admits v) ↔ ∃ s ∈ g.ranges, s.Admits v := by
  constructor
  · rintro ⟨r, hr, hv⟩
    obtain ⟨s, hs, hrs⟩ := h.there r hr
    exact ⟨s, hs, (hrs.admits_iff v).1 hv⟩
  · rintro ⟨s, hs, hv⟩
    obtain ⟨r, hr, hrs⟩ := h.back s hs
    exact ⟨r, hr, (hrs.admits_iff v).2 hv⟩

end Formula

/-! ### More clauses -/

section Clauses

variable {ps qs : List Clause} {v : Version}

/-- A version lies in the region of more clauses if it lies in the regions of both halves. -/
theorem Range.mem_region_append_iff (x : Precedence) :
    x ∈ (Range.all (ps ++ qs)).region ↔ x ∈ (Range.all ps).region ∧ x ∈ (Range.all qs).region :=
  List.forall_mem_append

/-- More clauses ask for a version if one of the halves does. -/
theorem Range.names_append_iff :
    (Range.all (ps ++ qs)).Names v ↔ (Range.all ps).Names v ∨ (Range.all qs).Names v := by
  simp only [Names, targets, List.map_append, List.mem_append, or_and_right, exists_or]

theorem Range.admits_append (hp : (Range.all ps).Admits v) (hq : (Range.all qs).Admits v) :
    (Range.all (ps ++ qs)).Admits v :=
  ⟨fun hv => names_append_iff.2 (.inl (hp.1 hv)), (mem_region_append_iff _).2 ⟨hp.2, hq.2⟩⟩

theorem Range.admits_or_of_append (h : (Range.all (ps ++ qs)).Admits v) :
    (Range.all ps).Admits v ∨ (Range.all qs).Admits v := by
  obtain ⟨hnames, hregion⟩ := h
  obtain ⟨hp, hq⟩ := (mem_region_append_iff _).1 hregion
  by_cases hv : v.isPrerelease = true
  · exact (names_append_iff.1 (hnames hv)).imp (⟨fun _ => ·, hp⟩) (⟨fun _ => ·, hq⟩)
  · exact .inl ⟨fun hpre => absurd hpre hv, hp⟩

/-- A release need not be asked for. -/
theorem Range.admits_append_iff_of_release (hv : v.isPrerelease = false) :
    (Range.all (ps ++ qs)).Admits v ↔ (Range.all ps).Admits v ∧ (Range.all qs).Admits v := by
  simp only [Admits, hv, Bool.false_eq_true, false_imp_iff, true_and, mem_region_append_iff]

end Clauses

/-! ### What satisfies them -/

/-- A version satisfies a formula if one of its ranges admits the version. -/
theorem Formula.satisfies_iff_admits {f : Formula} (hf : f.Proper) (v : Version) :
    ∃ b, f.satisfies v = .ok b ∧ (b = true ↔ ∃ r ∈ f.ranges, r.Admits v) :=
  satisfies_eq_ok hf v

/-- A formula of one range. -/
theorem Range.satisfies_alone {r : Range} (hr : r.Proper) (v : Version) :
    ∃ b, Formula.satisfies ⟨[r]⟩ v = .ok b ∧ (b = true ↔ r.Admits v) := by
  have hf : Formula.Proper ⟨[r]⟩ := List.forall_mem_singleton.2 hr
  obtain ⟨b, hb, h⟩ := Formula.satisfies_iff_admits hf v
  exact ⟨b, hb, by simpa using h⟩

/-- **What satisfies formulas that are put together.**  A version satisfies the ranges of two
formulas if it satisfies one of the formulas.  Order and number of the ranges, and of the clauses
in them, do not matter.  Of clauses that are put together a release satisfies all if it satisfies
both halves; a prerelease does so as well, but it may also satisfy all and only one of the
halves. -/
theorem Formula.satisfies_combined {rs ss : List Range} {f g : Formula} {ps qs : List Clause}
    (hrs : ∀ r ∈ rs, r.Proper) (hss : ∀ s ∈ ss, s.Proper) (hf : f.Proper) (hfg : f.Rearranged g)
    (hps : ∀ p ∈ ps, p.Proper) (hqs : ∀ q ∈ qs, q.Proper) (v : Version) :
    (∃ x y, satisfies ⟨rs⟩ v = .ok x ∧ satisfies ⟨ss⟩ v = .ok y ∧
      satisfies ⟨rs ++ ss⟩ v = .ok (x || y)) ∧
    (∃ x, f.satisfies v = .ok x ∧ g.satisfies v = .ok x) ∧
    ∃ x y z, satisfies ⟨[.all ps]⟩ v = .ok x ∧ satisfies ⟨[.all qs]⟩ v = .ok y ∧
      satisfies ⟨[.all (ps ++ qs)]⟩ v = .ok z ∧ (v.isPrerelease = false → z = (x && y)) ∧
      (x = true → y = true → z = true) ∧ (z = true → x = true ∨ y = true) := by
  refine ⟨?_, ?_, ?_⟩
  · obtain ⟨x, hx, hxr⟩ := satisfies_iff_admits (f := ⟨rs⟩) hrs v
    obtain ⟨y, hy, hys⟩ := satisfies_iff_admits (f := ⟨ss⟩) hss v
    obtain ⟨z, hz, hzrs⟩ :=
      satisfies_iff_admits (f := ⟨rs ++ ss⟩) (List.forall_mem_append.2 ⟨hrs, hss⟩) v
    have hxyz : z = (x || y) := by
      rw [Bool.eq_iff_iff, hzrs, Bool.or_eq_true, hxr, hys]
      simp only [List.mem_append, or_and_right, exists_or]
    exact ⟨x, y, hx, hy, hxyz ▸ hz⟩
  · obtain ⟨x, hx, hxf⟩ := satisfies_iff_admits hf v
    obtain ⟨y, hy, hyg⟩ := satisfies_iff_admits (hfg.proper hf) v
    have hxy : y = x := by rw [Bool.eq_iff_iff, hxf, hyg, hfg.exists_admits_iff]
    exact ⟨x, hx, hxy ▸ hy⟩
  · obtain ⟨x, hx, hxp⟩ := Range.satisfies_alone (.all hps) v
    obtain ⟨y, hy, hyq⟩ := Range.satisfies_alone (.all hqs) v
    obtain ⟨z, hz, hzpq⟩ := Range.satisfies_alone (.all (List.forall_mem_append.2 ⟨hps, hqs⟩)) v
    refine ⟨x, y, z, hx, hy, hz, fun hv => ?_, fun h1 h2 => ?_, fun h => ?_⟩
    · rw [Bool.eq_iff_iff, hzpq, Range.admits_append_iff_of_release hv, Bool.and_eq_true, hxp, hyq]
    · exact hzpq.2 (Range.admits_append (hxp.1 h1) (hyq.1 h2))
    · exact (Range.admits_or_of_append (hzpq.1 h)).imp hxp.2 hyq.2

/-- The clause `>=1.2.3-alpha`, which asks for prereleases of `1.2.3`. -/
def Clause.fromAlpha : Clause := .compare (some .ge) (.version ⟨1, 2, 3, [.alpha "alpha"], []⟩)

/-- The clause `<2`, which asks for no prereleases. -/
def Clause.belowTwo : Clause := .compare (some .lt) (.major 2)

/-- The formula `>=1.2.3-alpha <2 || 3 - 4`. -/
def Formula.alphaOrThree : Formula :=
  ⟨[.all [.fromAlpha, .belowTwo], .between (.major 3) (.major 4)]⟩

/-- The formula `3 - 4 || <2 >=1.2.3-alpha <2 || 3 - 4`. -/
def Formula.threeOrAlpha : Formula :=
  ⟨[.between (.major 3) (.major 4), .all [.belowTwo, .fromAlpha, .belowTwo],
    .between (.major 3) (.major 4)]⟩

/-- The prerelease `1.2.3-beta`, which satisfies both clauses together and only one of them by
itself. -/
theorem Formula.satisfies_combined_alphaBelowTwo :
    (alphaOrThree.Proper ∧ alphaOrThree.Rearranged threeOrAlpha ∧
      (∀ p ∈ [Clause.fromAlpha], p.Proper) ∧ ∀ q ∈ [Clause.belowTwo], q.Proper) ∧
    (∃ x y, alphaOrThree.satisfies ⟨1, 2, 3, [.alpha "beta"], []⟩ = .ok x ∧
      Formula.satisfies ⟨[.all [.fromAlpha]]⟩ ⟨1, 2, 3, [.alpha "beta"], []⟩ = .ok y ∧
      Formula.satisfies ⟨alphaOrThree.ranges ++ [.all [.fromAlpha]]⟩
        ⟨1, 2, 3, [.alpha "beta"], []⟩ = .ok (x || y)) ∧
    (∃ x, alphaOrThree.satisfies ⟨1, 2, 3, [.alpha "beta"], []⟩ = .ok x ∧
      threeOrAlpha.satisfies ⟨1, 2, 3, [.alpha "beta"], []⟩ = .ok x) ∧
    ∃ x y z, Formula.satisfies ⟨[.all [.fromAlpha]]⟩ ⟨1, 2, 3, [.alpha "beta"], []⟩ = .ok x ∧
      Formula.satisfies ⟨[.all [.belowTwo]]⟩ ⟨1, 2, 3, [.alpha "beta"], []⟩ = .ok y ∧
      Formula.satisfies ⟨[.all ([.fromAlpha] ++ [.belowTwo])]⟩
        ⟨1, 2, 3, [.alpha "beta"], []⟩ = .ok z ∧
      (Version.isPrerelease ⟨1, 2, 3, [.alpha "beta"], []⟩ = false → z = (x && y)) ∧
      (x = true → y = true → z = true) ∧ (z = true → x = true ∨ y = true) := by
  have hp : Clause.fromAlpha.Proper := .compare _ (.version _)
  have hq : Clause.belowTwo.Proper := .compare _ (.major 2)
  have hps : ∀ p ∈ [Clause.fromAlpha], p.Proper := List.forall_mem_singleton.2 hp
  have hqs : ∀ q ∈ [Clause.belowTwo], q.Proper := List.forall_mem_singleton.2 hq
  have hss : ∀ s ∈ [Range.all [.fromAlpha]], s.Proper := List.forall_mem_singleton.2 (.all hps)
  have hboth : ∀ c ∈ [Clause.fromAlpha, .belowTwo], c.Proper :=
    List.forall_mem_cons.2 ⟨hp, hqs⟩
  have hf : alphaOrThree.Proper :=
    List.forall_mem_cons.2
      ⟨.all hboth, List.forall_mem_singleton.2 (.between (.major 3) (.major 4))⟩
  have hclauses : (Range.all [.fromAlpha, .belowTwo]).Rearranged
      (.all [.belowTwo, .fromAlpha, .belowTwo]) := .all (by simp)
  have hfg : alphaOrThree.Rearranged threeOrAlpha :=
    ⟨by simp [alphaOrThree, threeOrAlpha, hclauses, Range.Rearranged.same],
      by simp [alphaOrThree, threeOrAlpha, hclauses, Range.Rearranged.same]⟩
  exact ⟨⟨hf, hfg, hps, hqs⟩, satisfies_combined hf hss hf hfg hps hqs _⟩

end SemverRange
