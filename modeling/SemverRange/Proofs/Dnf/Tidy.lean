import SemverRange.Proofs.Dnf.Bounds
import SemverRange.Proofs.Formula.RoundTrip

/-!
# What normalization leaves of a formula

The bounds of a well-formed formula are tidy: no conjunction is empty, no operator is blank, no
bound has build metadata, and the prerelease identifiers are those of the formula.  Only the
three numbers of a bound can be anything, because a ceiling is one more than a number of the
formula.

## Main definitions

* `Conjunction.Unbuilt` — there is a bound, and no bound has build metadata.
* `Comparator.Tidy`, `Dnf.Tidy` — bounds that can be written, unless a number is too long.

## Main results

* `Formula.tidy_of_normalize` — the bounds of a well-formed formula are tidy.
-/

namespace SemverRange

/-! ### Build metadata -/

/-- There is a bound, and no bound has build metadata. -/
structure Conjunction.Unbuilt (bs : Conjunction) : Prop where
  /-- There is a bound. -/
  ne_nil : bs ≠ []
  /-- No bound has build metadata. -/
  build : ∀ b ∈ bs, b.version.build = []

namespace Conjunction

theorem unbuilt_singleton {o : Option Op} {v : Version} (h : v.build = []) :
    Unbuilt [⟨o, v⟩] :=
  ⟨List.cons_ne_nil _ _, List.forall_mem_singleton.2 h⟩

theorem unbuilt_between {v w : Version} (hv : v.build = []) (hw : w.build = []) :
    Unbuilt [.atLeast v, .below w] :=
  ⟨List.cons_ne_nil _ _, List.forall_mem_cons.2 ⟨hv, List.forall_mem_singleton.2 hw⟩⟩

end Conjunction

namespace Target

open Conjunction

theorem build_of_release? {a b c : ℤ} {v : Version} (h : release? a b c = .ok v) :
    v.build = [] := by
  unfold release? Version.ofParts? at h
  split at h
  · cases h
  · cases h
    rfl

theorem build_of_floor {t : Target} {v : Version} (h : t.floor = .ok v) : v.build = [] := by
  cases t with
  | version w => cases h; rfl
  | any => cases h; rfl
  | major m => exact build_of_release? h
  | minor m n => exact build_of_release? h
  | blank => cases h

theorem build_of_ceiling {t : Target} {v : Version} (h : t.ceiling = .ok v) : v.build = [] := by
  cases t with
  | major m => exact build_of_release? h
  | minor m n => exact build_of_release? h
  | _ => cases h

/-- The bounds from the floor of a target up to its ceiling. -/
theorem unbuilt_of_floor_ceiling {t : Target} {bs : Conjunction}
    (h : (do
      let lower ← t.floor
      let upper ← t.ceiling
      pure [Comparator.atLeast lower, Comparator.below upper]) = .ok bs) : Unbuilt bs := by
  obtain ⟨lower, hlower, h⟩ := bind_eq_ok h
  obtain ⟨upper, hupper, h⟩ := bind_eq_ok h
  cases h
  exact unbuilt_between (build_of_floor hlower) (build_of_ceiling hupper)

theorem unbuilt_of_exact {t : Target} {bs : Conjunction} (h : t.exact = .ok bs) :
    Unbuilt bs := by
  cases t with
  | version v => cases h; exact unbuilt_singleton rfl
  | any => cases h; exact unbuilt_singleton rfl
  -- what has a wildcard at its end goes from its floor up to its ceiling
  | major m => exact unbuilt_of_floor_ceiling h
  | minor m n => exact unbuilt_of_floor_ceiling h
  | blank => cases h

theorem unbuilt_of_tilde {t : Target} {bs : Conjunction} (h : t.tilde = .ok bs) :
    Unbuilt bs := by
  -- the lower bound is the floor of every target, only the upper one depends on its form
  obtain ⟨lower, hlower, h⟩ := bind_eq_ok h
  have hbuild := build_of_floor hlower
  cases t with
  | major m =>
    obtain ⟨upper, hupper, h⟩ := bind_eq_ok h
    cases h
    exact unbuilt_between hbuild (build_of_ceiling hupper)
  | blank => cases hlower
  | _ =>
    cases h
    exact unbuilt_between hbuild rfl

theorem unbuilt_of_caret {t : Target} {bs : Conjunction} (h : t.caret = .ok bs) :
    Unbuilt bs := by
  obtain ⟨lower, hlower, h⟩ := bind_eq_ok h
  have hbuild := build_of_floor hlower
  cases t with
  | version v =>
    cases h
    refine unbuilt_between hbuild ?_
    -- which number goes up depends on the first that is not zero, and all three ceilings are bare
    split
    · rfl
    · split <;> rfl
  | any => cases h; exact unbuilt_singleton hbuild
  | major m => cases h; exact unbuilt_between hbuild rfl
  | minor m n =>
    cases h
    refine unbuilt_between hbuild ?_
    split <;> rfl
  | blank => cases hlower

theorem build_of_comparedBy {t : Target} {o : Option Op} {b : Comparator}
    (h : t.comparedBy o = .ok b) : b.version.build = [] := by
  cases t with
  | version v => cases h; rfl
  | any =>
    simp only [comparedBy] at h
    split at h
    · cases h; rfl
    · cases h; rfl
  | blank =>
    simp only [comparedBy] at h
    split at h <;> cases h
  | _ =>
    -- the operator decides whether the bound is about the ceiling or about the floor
    simp only [comparedBy] at h
    split at h
    · obtain ⟨upper, hupper, h⟩ := bind_eq_ok h
      cases h
      exact build_of_ceiling hupper
    · obtain ⟨lower, hlower, h⟩ := bind_eq_ok h
      cases h
      exact build_of_floor hlower

theorem build_of_lowerEnd {t : Target} {bs : Conjunction} (h : t.lowerEnd = .ok bs) :
    ∀ b ∈ bs, b.version.build = [] := by
  cases t with
  | any => cases h; exact nofun
  | _ =>
    obtain ⟨lower, hlower, h⟩ := bind_eq_ok h
    cases h
    exact List.forall_mem_singleton.2 (build_of_floor hlower)

theorem build_of_upperEnd {t : Target} {bs : Conjunction} (h : t.upperEnd = .ok bs) :
    ∀ b ∈ bs, b.version.build = [] := by
  cases t with
  | version v => cases h; exact List.forall_mem_singleton.2 rfl
  | any => cases h; exact nofun
  | blank => cases h; exact nofun
  | _ =>
    obtain ⟨upper, hupper, h⟩ := bind_eq_ok h
    cases h
    exact List.forall_mem_singleton.2 (build_of_ceiling hupper)

end Target

theorem Clause.unbuilt_of_bounds {c : Clause} {bs : Conjunction} (h : c.bounds = .ok bs) :
    bs.Unbuilt := by
  cases c with
  | bare t => exact Target.unbuilt_of_exact h
  | shorthand s t =>
    cases s with
    | none => cases h
    | some s =>
      cases s with
      | tilde => exact Target.unbuilt_of_tilde h
      | caret => exact Target.unbuilt_of_caret h
  | compare o t =>
    obtain ⟨b, hb, h⟩ := bind_eq_ok h
    cases h
    exact Conjunction.unbuilt_singleton (Target.build_of_comparedBy hb)
  | blank => cases h

/-- What succeeds on a list succeeds on its elements, one after the other. -/
theorem forall₂_of_mapM_eq_ok {ε α β : Type} {f : α → Except ε β} {as : List α} {bs : List β}
    (h : as.mapM f = .ok bs) : List.Forall₂ (fun a b => f a = .ok b) as bs := by
  induction as generalizing bs with
  | nil => cases h; exact .nil
  | cons a as ih =>
    -- a success of the whole is one of the head and one of the tail
    rw [List.mapM_cons] at h
    obtain ⟨b, hb, h⟩ := bind_eq_ok h
    obtain ⟨bs', hbs, h⟩ := bind_eq_ok h
    cases h
    exact .cons hb (ih hbs)

theorem exists_of_mem_of_forall₂ {α β : Type} {R : α → β → Prop} {as : List α} {bs : List β}
    (h : List.Forall₂ R as bs) {b : β} (hb : b ∈ bs) : ∃ a ∈ as, R a b := by
  induction h with
  | nil => cases hb
  | @cons a b' as bs hab _ ih =>
    rcases List.mem_cons.1 hb with rfl | hb
    · exact ⟨a, List.mem_cons_self, hab⟩
    · obtain ⟨a', ha', hab'⟩ := ih hb
      exact ⟨a', List.mem_cons_of_mem a ha', hab'⟩

/-- The bounds of a range with a clause or two ends. -/
theorem Range.unbuilt_of_bounds {r : Range} {bs : Conjunction} (hr : r ≠ .all [])
    (h : r.bounds = .ok bs) : bs.Unbuilt := by
  cases r with
  | all cs =>
    obtain ⟨bss, hbss, h⟩ := bind_eq_ok h
    cases h
    have hall := forall₂_of_mapM_eq_ok hbss
    refine ⟨?_, ?_⟩
    · -- the bounds of the first clause are there
      cases hall with
      | nil => exact absurd rfl hr
      | cons hc _ =>
        rw [List.flatten_cons]
        exact List.append_ne_nil_of_left_ne_nil (Clause.unbuilt_of_bounds hc).ne_nil _
    · intro b hb
      obtain ⟨cb, hcb, hb⟩ := List.mem_flatten.1 hb
      obtain ⟨c, -, hc⟩ := exists_of_mem_of_forall₂ hall hcb
      exact (Clause.unbuilt_of_bounds hc).build b hb
  | between l u =>
    obtain ⟨lower, hlower, h⟩ := bind_eq_ok h
    obtain ⟨upper, hupper, h⟩ := bind_eq_ok h
    cases h
    -- two ends that bound nothing leave the bound of all versions
    split
    · exact Conjunction.unbuilt_singleton rfl
    · next hne =>
      refine ⟨fun hnil => hne (List.isEmpty_iff.2 hnil), List.forall_mem_append.2 ⟨?_, ?_⟩⟩
      · exact Target.build_of_lowerEnd hlower
      · exact Target.build_of_upperEnd hupper
  | blank => cases h

/-! ### Tidy bounds -/

/-- The bound has an operator and no build metadata, and its identifiers can be written. -/
structure Comparator.Tidy (b : Comparator) : Prop where
  /-- The operator is not blank. -/
  op : b.op.isSome
  /-- The identifiers after the dash. -/
  prerelease : ∀ i ∈ b.version.prerelease, i.WellFormed
  /-- There is no build metadata. -/
  build : b.version.build = []

/-- There is a conjunction, none is empty, and all bounds are tidy. -/
structure Dnf.Tidy (d : Dnf) : Prop where
  /-- There is a conjunction. -/
  ne_nil : d ≠ []
  /-- No conjunction is empty. -/
  conjunction_ne_nil : ∀ bs ∈ d, bs ≠ []
  /-- All bounds are tidy. -/
  bounds : ∀ bs ∈ d, ∀ b ∈ bs, b.Tidy

theorem Range.WellFormed.targets {r : Range} (hr : r.WellFormed) :
    ∀ t ∈ r.targets, t.WellFormed := by
  cases hr with
  | all _ hcs =>
    refine List.forall_mem_map.2 fun c hc => ?_
    cases hcs c hc with
    | bare ht => exact ht
    | shorthand s ht => exact ht
    | compare o ht => exact ht
  | between hl hu => exact List.forall_mem_cons.2 ⟨hl, List.forall_mem_singleton.2 hu⟩

theorem Range.exists_of_mem_prereleases {r : Range} {v : Version} (hv : v ∈ r.prereleases) :
    ∃ w, .version w ∈ r.targets ∧ w.stripBuild = v := by
  obtain ⟨t, ht, hvt⟩ := List.mem_flatMap.1 hv
  cases t with
  | version w =>
    obtain ⟨hvw, -⟩ := List.mem_filter.1 hvt
    exact ⟨w, ht, (List.mem_singleton.1 hvw).symm⟩
  | _ => cases hvt

/-- The prereleases that a well-formed range is written with have well-formed identifiers. -/
theorem Range.WellFormed.prereleases {r : Range} (hr : r.WellFormed) {v : Version}
    (hv : v ∈ r.prereleases) : ∀ i ∈ v.prerelease, i.WellFormed := by
  obtain ⟨w, hw, rfl⟩ := exists_of_mem_prereleases hv
  cases hr.targets _ hw with
  | version hw => exact hw.prerelease

/-- A bound is a release, or a prerelease that the range is written with. -/
theorem Range.prerelease_of_bounds {r : Range} (hr : r.Proper) {bs : Conjunction}
    (h : r.bounds = .ok bs) {b : Comparator} (hb : b ∈ bs) :
    b.version.prerelease = [] ∨ b.version ∈ r.prereleases := by
  -- the prereleases among the bounds are those that the range is written with
  obtain ⟨bs', hbs', hden⟩ := denotes_bounds hr
  rw [h] at hbs'
  cases hbs'
  cases hpre : b.version.isPrerelease with
  | false =>
    left
    simpa [Version.isPrerelease] using hpre
  | true =>
    right
    rw [← hden.named]
    exact List.mem_filter.2 ⟨List.mem_map.2 ⟨b, hb, rfl⟩, hpre⟩

/-- A range with a clause or two ends has bounds, and these are tidy if it is well formed. -/
theorem Range.tidy_of_bounds {r : Range} (hr : r.WellFormed) {bs : Conjunction}
    (h : r.bounds = .ok bs) : bs ≠ [] ∧ ∀ b ∈ bs, b.Tidy := by
  have hunbuilt : bs.Unbuilt := by
    refine unbuilt_of_bounds ?_ h
    rintro rfl
    cases hr with
    | all hne _ => exact hne rfl
  -- the operators and the identifiers follow from what the bounds denote
  obtain ⟨bs', hbs', hden⟩ := denotes_bounds hr.proper
  rw [h] at hbs'
  cases hbs'
  refine ⟨hunbuilt.ne_nil, fun b hb => ⟨hden.filled b hb, ?_, hunbuilt.build b hb⟩⟩
  rcases prerelease_of_bounds hr.proper h hb with hnil | hpre
  · rw [hnil]
    exact List.forall_mem_nil _
  · exact hr.prereleases hpre

/-- **Normalization leaves tidy bounds** of a well-formed formula. -/
theorem Formula.tidy_of_normalize {f : Formula} (hf : f.WellFormed) {d : Dnf}
    (h : f.normalize = .ok d) : d.Tidy := by
  -- each conjunction is made of one range
  have hall := forall₂_of_mapM_eq_ok h
  have hbounds : ∀ bs ∈ d, bs ≠ [] ∧ ∀ b ∈ bs, b.Tidy := by
    intro bs hbs
    obtain ⟨r, hr, hrbs⟩ := exists_of_mem_of_forall₂ hall hbs
    exact Range.tidy_of_bounds (hf.ranges r hr) hrbs
  refine ⟨?_, fun bs hbs => (hbounds bs hbs).1, fun bs hbs => (hbounds bs hbs).2⟩
  rintro rfl
  rw [List.forall₂_nil_right_iff] at hall
  exact hf.ne_nil hall

end SemverRange
