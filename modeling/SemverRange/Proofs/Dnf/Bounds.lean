import Mathlib.Data.List.Forall2
import SemverRange.Compiled
import SemverRange.Proofs.Dnf.Region

/-!
# Bounds and regions

Normalization writes the regions of a formula as lists of comparators.  Each list that it
makes is related to a region by `Conjunction.Denotes`, which also keeps track of the
prereleases among the bounds: these are exactly the ones that the range was written with,
since every bound that normalization makes up is a release.

## Main definitions

* `Comparator.Meets` — a version of the given rank meets a bound.
* `Conjunction.Denotes` — bounds stand for a region and name some prereleases.

## Main results

* `Range.denotes_bounds` — the bounds of a range stand for its region and name its
  prereleases.
* `Formula.satisfies_eq_ok` — what it takes for a version to satisfy a formula.
-/

namespace SemverRange

open Set

/-! ### Bounds that stand for a region -/

/-- The prereleases among the bounds. -/
def Conjunction.prereleases (cs : Conjunction) : List Version :=
  (cs.map Comparator.version).filter Version.isPrerelease

/-- A version of the given rank meets the bound. -/
def Comparator.Meets (c : Comparator) (x : Precedence) : Prop :=
  ∀ o ∈ c.op, o.Holds x c.version.rank

theorem Op.holds_relation_iff (o : Op) (v w : Version) :
    o.relation.holds v w = true ↔ o.Holds v.rank w.rank := by
  cases o with
  | eq => exact Version.same_iff v w
  | lt => exact Version.before_iff v w
  | le =>
    rw [relation, Relation.holds, Bool.or_eq_true, Version.before_iff, Version.same_iff]
    exact le_iff_lt_or_eq.symm
  | gt =>
    rw [relation, Relation.holds, Bool.and_eq_true, Bool.not_eq_true', Bool.not_eq_true',
      ← Bool.not_eq_true, ← Bool.not_eq_true, Version.before_iff, Version.same_iff, not_lt]
    exact ⟨fun h => lt_of_le_of_ne h.1 fun he => h.2 he.symm, fun h => ⟨h.le, h.ne'⟩⟩
  | ge =>
    rw [relation, Relation.holds, Bool.not_eq_true', ← Bool.not_eq_true, Version.before_iff,
      not_lt]
    exact Iff.rfl

/-- The bounds stand for the region, and the versions `ws` are the prereleases among them.
No operator is blank. -/
structure Conjunction.Denotes (cs : Conjunction) (S : Set Precedence) (ws : List Version) :
    Prop where
  filled : ∀ c ∈ cs, c.op.isSome
  meets : ∀ x, (∀ c ∈ cs, c.Meets x) ↔ x ∈ S
  named : cs.prereleases = ws

namespace Conjunction

theorem denotes_nil : Denotes [] univ [] where
  filled := by simp
  meets := by simp
  named := rfl

/-- Bounds that are put together leave what both leave. -/
theorem Denotes.append {cs ds : Conjunction} {S T : Set Precedence} {ws us : List Version}
    (hc : Denotes cs S ws) (hd : Denotes ds T us) : Denotes (cs ++ ds) (S ∩ T) (ws ++ us) where
  filled := by
    intro c h
    rcases List.mem_append.1 h with h | h
    · exact hc.filled c h
    · exact hd.filled c h
  meets := by
    intro x
    rw [List.forall_mem_append, hc.meets, hd.meets, mem_inter_iff]
  named := by rw [prereleases, List.map_append, List.filter_append, ← hc.named, ← hd.named]; rfl

theorem denotes_flatten {cs : List Clause} {bs : List Conjunction}
    (h : List.Forall₂ (fun c b => Denotes b c.region c.target.prereleases) cs bs) :
    Denotes bs.flatten {x | ∀ c ∈ cs, x ∈ c.region}
      (cs.flatMap fun c => c.target.prereleases) := by
  induction h with
  | nil => simpa using denotes_nil
  | @cons c b cs bs hb _ ih =>
    have hsplit : {x | ∀ c' ∈ c :: cs, x ∈ c'.region} =
        c.region ∩ {x | ∀ c' ∈ cs, x ∈ c'.region} := by
      ext x
      simp
    rw [hsplit, List.flatten_cons, List.flatMap_cons]
    exact hb.append ih

theorem denotes_compare (o : Op) (w : Version) :
    Denotes [⟨some o, w⟩] {x | o.Holds x w.rank} ([w].filter Version.isPrerelease) where
  filled := by simp
  meets := by simp [Comparator.Meets]
  named := rfl

theorem denotes_atLeast (w : Version) :
    Denotes [.atLeast w] (Ici w.rank) ([w].filter Version.isPrerelease) :=
  denotes_compare .ge w

theorem denotes_below (a b c : ℕ) :
    Denotes [.below (.release a b c)] (Iio (releaseRank a b c)) [] :=
  denotes_compare .lt (.release a b c)

theorem denotes_between (w : Version) (a b c : ℕ) :
    Denotes [.atLeast w, .below (.release a b c)] (Ico w.rank (releaseRank a b c))
      ([w].filter Version.isPrerelease) := by
  have h := (denotes_atLeast w).append (denotes_below a b c)
  rwa [Ici_inter_Iio, List.append_nil] at h

end Conjunction

/-! ### The bounds of targets -/

namespace Target

open Conjunction

theorem release?_natCast (a b c : ℕ) :
    release? (a : ℤ) b c = .ok (Version.release a b c) := by
  have h : ¬ ((a : ℤ) < 0 ∨ (b : ℤ) < 0 ∨ (c : ℤ) < 0) := by omega
  simp [release?, Version.ofParts?, Version.release, Except.mapError, h]

@[simp] theorem floor_major (m : ℕ) : (major m).floor = .ok (.release m 0 0) :=
  release?_natCast m 0 0

@[simp] theorem floor_minor (m n : ℕ) : (minor m n).floor = .ok (.release m n 0) :=
  release?_natCast m n 0

@[simp] theorem ceiling_major (m : ℕ) : (major m).ceiling = .ok (.release (m + 1) 0 0) :=
  release?_natCast (m + 1) 0 0

@[simp] theorem ceiling_minor (m n : ℕ) : (minor m n).ceiling = .ok (.release m (n + 1) 0) :=
  release?_natCast m (n + 1) 0

theorem denotes_exact {t : Target} (ht : t.Proper) :
    ∃ bs, t.exact = .ok bs ∧ Denotes bs t.bareRegion t.prereleases := by
  cases ht with
  | version v => exact ⟨_, rfl, denotes_compare .eq v.stripBuild⟩
  | any => exact ⟨_, rfl, denotes_atLeast .zero⟩
  | major m =>
    refine ⟨[.atLeast (.release m 0 0), .below (.release (m + 1) 0 0)], ?_, denotes_between ..⟩
    simp only [exact, floor_major, ceiling_major]
    rfl
  | minor m n =>
    refine ⟨[.atLeast (.release m n 0), .below (.release m (n + 1) 0)], ?_, denotes_between ..⟩
    simp only [exact, floor_minor, ceiling_minor]
    rfl

theorem denotes_tilde {t : Target} (ht : t.Proper) :
    ∃ bs, t.tilde = .ok bs ∧ Denotes bs t.tildeRegion t.prereleases := by
  cases ht with
  | version v => exact ⟨_, rfl, denotes_between v.stripBuild ..⟩
  | any =>
    refine ⟨_, rfl, ?_⟩
    have h := denotes_between .zero 0 0 0
    rwa [releaseRank, ← Version.zero, Ico_self] at h
  | major m =>
    refine ⟨[.atLeast (.release m 0 0), .below (.release (m + 1) 0 0)], ?_, denotes_between ..⟩
    rw [tilde, floor_major]
    simp only [ceiling_major]
    rfl
  | minor m n =>
    refine ⟨[.atLeast (.release m n 0), .below (.release m (n + 1) 0)], ?_, denotes_between ..⟩
    rw [tilde, floor_minor]
    rfl

theorem denotes_caret {t : Target} (ht : t.Proper) :
    ∃ bs, t.caret = .ok bs ∧ Denotes bs t.caretRegion t.prereleases := by
  cases ht with
  | version v =>
    -- which number is the first that is not zero decides about the ceiling
    rcases v with ⟨major, minor, patch, pre, build⟩
    rcases major with _ | major
    · rcases minor with _ | minor
      · exact ⟨_, rfl, denotes_between (Version.stripBuild _) 0 0 (patch + 1)⟩
      · exact ⟨_, rfl, denotes_between (Version.stripBuild _) 0 (minor + 1 + 1) 0⟩
    · exact ⟨_, rfl, denotes_between (Version.stripBuild _) (major + 1 + 1) 0 0⟩
  | any => exact ⟨_, rfl, denotes_atLeast .zero⟩
  | major m =>
    refine ⟨[.atLeast (.release m 0 0), .below (.release (m + 1) 0 0)], ?_, denotes_between ..⟩
    simp only [caret, floor_major]
    rfl
  | minor m n =>
    rcases m with _ | m
    · refine ⟨[.atLeast (.release 0 n 0), .below (.release 0 (n + 1) 0)], ?_,
        denotes_between ..⟩
      simp only [caret, floor_minor]
      rfl
    · refine ⟨[.atLeast (.release (m + 1) n 0), .below (.release (m + 1 + 1) 0 0)], ?_,
        denotes_between ..⟩
      simp only [caret, floor_minor]
      rfl

theorem denotes_comparedBy {t : Target} (ht : t.Proper) (o : Op) :
    ∃ b, t.comparedBy (some o) = .ok b ∧ Denotes [b] (t.comparedRegion o) t.prereleases := by
  by_cases ho : o = .gt
  · subst ho
    cases ht with
    | version v => exact ⟨_, rfl, denotes_compare .gt v.stripBuild⟩
    | any => exact ⟨_, rfl, denotes_below 0 0 0⟩
    | major m =>
      refine ⟨.atLeast (.release (m + 1) 0 0), ?_, denotes_atLeast _⟩
      simp only [comparedBy, ceiling_major]
      rfl
    | minor m n =>
      refine ⟨.atLeast (.release m (n + 1) 0), ?_, denotes_atLeast _⟩
      simp only [comparedBy, ceiling_minor]
      rfl
  · have hsome : some o ≠ some .gt := fun h => ho (Option.some.inj h)
    cases ht with
    | version v => exact ⟨_, rfl, denotes_compare o v.stripBuild⟩
    | any =>
      rw [comparedRegion, if_neg ho]
      refine ⟨⟨some o, .zero⟩, ?_, denotes_compare o .zero⟩
      simp only [comparedBy, if_neg hsome, floor]
      rfl
    | major m =>
      rw [comparedRegion, if_neg ho]
      refine ⟨⟨some o, .release m 0 0⟩, ?_, denotes_compare o (.release m 0 0)⟩
      simp only [comparedBy, if_neg hsome, floor_major]
      rfl
    | minor m n =>
      rw [comparedRegion, if_neg ho]
      refine ⟨⟨some o, .release m n 0⟩, ?_, denotes_compare o (.release m n 0)⟩
      simp only [comparedBy, if_neg hsome, floor_minor]
      rfl

theorem denotes_lowerEnd {t : Target} (ht : t.Proper) :
    ∃ bs, t.lowerEnd = .ok bs ∧ Denotes bs t.lowerRegion t.prereleases ∧ (bs = [] ↔ t = any) := by
  cases ht with
  | version v => exact ⟨_, rfl, denotes_atLeast v.stripBuild, by simp⟩
  | any => exact ⟨_, rfl, denotes_nil, by simp⟩
  | major m =>
    refine ⟨[.atLeast (.release m 0 0)], ?_, denotes_atLeast _, by simp⟩
    simp only [lowerEnd, floor_major]
    rfl
  | minor m n =>
    refine ⟨[.atLeast (.release m n 0)], ?_, denotes_atLeast _, by simp⟩
    simp only [lowerEnd, floor_minor]
    rfl

theorem denotes_upperEnd {t : Target} (ht : t.Proper) :
    ∃ bs, t.upperEnd = .ok bs ∧ Denotes bs t.upperRegion t.prereleases ∧ (bs = [] ↔ t = any) := by
  cases ht with
  | version v => exact ⟨_, rfl, denotes_compare .le v.stripBuild, by simp⟩
  | any => exact ⟨_, rfl, denotes_nil, by simp⟩
  | major m =>
    refine ⟨[.below (.release (m + 1) 0 0)], ?_, denotes_below .., by simp⟩
    simp only [upperEnd, ceiling_major]
    rfl
  | minor m n =>
    refine ⟨[.below (.release m (n + 1) 0)], ?_, denotes_below .., by simp⟩
    simp only [upperEnd, ceiling_minor]
    rfl

end Target

/-! ### The bounds of clauses, ranges and formulas -/

theorem Clause.denotes_bounds {c : Clause} (hc : c.Proper) :
    ∃ bs, c.bounds = .ok bs ∧ Conjunction.Denotes bs c.region c.target.prereleases := by
  cases hc with
  | bare ht => exact Target.denotes_exact ht
  | shorthand s ht =>
    cases s with
    | tilde => exact Target.denotes_tilde ht
    | caret => exact Target.denotes_caret ht
  | compare o ht =>
    obtain ⟨b, hb, hd⟩ := Target.denotes_comparedBy ht o
    refine ⟨[b], ?_, hd⟩
    rw [bounds, hb]
    rfl

/-- If a function succeeds on every element of a list, it does so on the list. -/
theorem exists_mapM_eq_ok {ε α β : Type} {f : α → Except ε β} {R : α → β → Prop} {as : List α}
    (h : ∀ a ∈ as, ∃ b, f a = .ok b ∧ R a b) : ∃ bs, as.mapM f = .ok bs ∧ List.Forall₂ R as bs := by
  induction as with
  | nil => exact ⟨[], rfl, .nil⟩
  | cons a as ih =>
    obtain ⟨b, hb, hab⟩ := h a List.mem_cons_self
    obtain ⟨bs, hbs, habs⟩ := ih fun a' ha' => h a' (List.mem_cons_of_mem a ha')
    refine ⟨b :: bs, ?_, .cons hab habs⟩
    rw [List.mapM_cons, hb, hbs]
    rfl

/-- **The bounds of a range stand for its region**, and the prereleases among them are those
that the range is written with. -/
theorem Range.denotes_bounds {r : Range} (hr : r.Proper) :
    ∃ bs, r.bounds = .ok bs ∧ Conjunction.Denotes bs r.region r.prereleases := by
  cases hr with
  | @all cs hcs =>
    obtain ⟨bs, hbs, hd⟩ := exists_mapM_eq_ok fun c hc => Clause.denotes_bounds (hcs c hc)
    refine ⟨bs.flatten, by rw [bounds, hbs]; rfl, ?_⟩
    rw [prereleases, targets, List.flatMap_map]
    exact Conjunction.denotes_flatten hd
  | @between l u hl hu =>
    obtain ⟨ls, hls, hdl, hl0⟩ := Target.denotes_lowerEnd hl
    obtain ⟨us, hus, hdu, hu0⟩ := Target.denotes_upperEnd hu
    have hpre : (Range.between l u).prereleases = l.prereleases ++ u.prereleases := by
      simp [prereleases, targets]
    by_cases hany : l = .any ∧ u = .any
    · -- neither end sets a bound, and the one from below is added
      obtain ⟨rfl, rfl⟩ := hany
      exact ⟨_, rfl, Conjunction.denotes_atLeast .zero⟩
    · have hne : (ls ++ us).isEmpty = false := by
        rw [List.isEmpty_eq_false_iff, ne_eq, List.append_eq_nil_iff, hl0, hu0]
        exact hany
      have hregion : (Range.between l u).region = l.lowerRegion ∩ u.upperRegion := by
        rw [region]
        exact fun h1 h2 => hany ⟨h1, h2⟩
      refine ⟨ls ++ us, ?_, ?_⟩
      · rw [bounds, hls, hus]
        simp only [bind, Except.bind, hne]
        rfl
      · rw [hregion, hpre]
        exact hdl.append hdu

theorem Formula.denotes_normalize {f : Formula} (hf : f.Proper) :
    ∃ d, f.normalize = .ok d ∧
      List.Forall₂ (fun r bs => Conjunction.Denotes bs r.region r.prereleases) f.ranges d :=
  exists_mapM_eq_ok fun r hr => Range.denotes_bounds (hf r hr)

/-! ### Checking a version -/

theorem exists_allM_eq_ok {α : Type} {test : α → Except Fault Bool} {P : α → Prop} {as : List α}
    (h : ∀ a ∈ as, ∃ b, test a = .ok b ∧ (b = true ↔ P a)) :
    ∃ b, allM test as = .ok b ∧ (b = true ↔ ∀ a ∈ as, P a) := by
  induction as with
  | nil => exact ⟨true, rfl, by simp⟩
  | cons a as ih =>
    obtain ⟨x, hx, hxP⟩ := h a List.mem_cons_self
    obtain ⟨y, hy, hyP⟩ := ih fun a' ha' => h a' (List.mem_cons_of_mem a ha')
    refine ⟨x && y, ?_, ?_⟩
    · rw [allM, hx]
      cases x with
      | false => rfl
      | true => exact hy
    · rw [Bool.and_eq_true, hxP, hyP, List.forall_mem_cons]

/-- The test of the elements of one list, when its outcomes are known for the elements of
another that correspond to them. -/
theorem exists_anyM_eq_ok {α β : Type} {test : β → Except Fault Bool} {P : α → Prop}
    {as : List α} {bs : List β}
    (h : List.Forall₂ (fun a b => ∃ x, test b = .ok x ∧ (x = true ↔ P a)) as bs) :
    ∃ x, anyM test bs = .ok x ∧ (x = true ↔ ∃ a ∈ as, P a) := by
  induction h with
  | nil => exact ⟨false, rfl, by simp⟩
  | @cons a b as bs hab _ ih =>
    obtain ⟨x, hx, hxP⟩ := hab
    obtain ⟨y, hy, hyP⟩ := ih
    refine ⟨x || y, ?_, ?_⟩
    · rw [anyM, hx]
      cases x with
      | false => exact hy
      | true => rfl
    · rw [Bool.or_eq_true, hxP, hyP, List.exists_mem_cons_iff]

namespace Conjunction

theorem asksFor_iff (bs : Conjunction) (v : Version) :
    bs.asksFor v = true ↔ ∃ w ∈ bs.prereleases, w.triple = v.triple := by
  simp only [asksFor, prereleases, List.any_eq_true, List.mem_filter, List.mem_map,
    Bool.and_eq_true, decide_eq_true_eq]
  constructor
  · rintro ⟨c, hc, hpre, htriple⟩
    exact ⟨c.version, ⟨⟨c, hc, rfl⟩, hpre⟩, htriple⟩
  · rintro ⟨_, ⟨⟨c, hc, rfl⟩, hpre⟩, htriple⟩
    exact ⟨c, hc, hpre, htriple⟩

theorem Denotes.check {bs : Conjunction} {S : Set Precedence} {ws : List Version}
    (h : Denotes bs S ws) (v : Version) :
    ∃ b, bs.check v = .ok b ∧ (b = true ↔ v.rank ∈ S) := by
  rw [← h.meets]
  refine exists_allM_eq_ok fun c hc => ?_
  obtain ⟨o, ho⟩ := Option.isSome_iff_exists.1 (h.filled c hc)
  refine ⟨o.relation.holds v c.version, by rw [Comparator.check, ho]; rfl, ?_⟩
  rw [Op.holds_relation_iff, Comparator.Meets, ho]
  simp

/-- Bounds admit a version of their region, which has to be asked for if it is a
prerelease. -/
theorem Denotes.admits {bs : Conjunction} {S : Set Precedence} {ws : List Version}
    (h : Denotes bs S ws) (v : Version) :
    ∃ b, bs.admits v = .ok b ∧ (b = true ↔
      (v.isPrerelease = true → ∃ w ∈ ws, w.triple = v.triple) ∧ v.rank ∈ S) := by
  have hask : bs.asksFor v = true ↔ ∃ w ∈ ws, w.triple = v.triple := by
    rw [asksFor_iff, h.named]
  rw [← hask, Conjunction.admits]
  obtain ⟨b, hb, hbS⟩ := h.check v
  cases hv : v.isPrerelease <;> cases ha : bs.asksFor v
  · exact ⟨b, hb, by simpa using hbS⟩
  · exact ⟨b, hb, by simpa using hbS⟩
  · exact ⟨false, rfl, by simp⟩
  · exact ⟨b, hb, by simpa using hbS⟩

end Conjunction

/-- **What it takes to satisfy a formula.**  Some range of it has the version in its region;
a prerelease must moreover be named by that range. -/
theorem Formula.satisfies_eq_ok {f : Formula} (hf : f.Proper) (v : Version) :
    ∃ b, f.satisfies v = .ok b ∧ (b = true ↔
      ∃ r ∈ f.ranges, (v.isPrerelease = true → r.Names v) ∧ v.rank ∈ r.region) := by
  obtain ⟨d, hd, hden⟩ := denotes_normalize hf
  have hsat : f.satisfies v = d.satisfies v := by
    rw [satisfies, hd]
    rfl
  rw [hsat]
  refine exists_anyM_eq_ok (hden.imp fun r bs h => ?_)
  rw [r.names_iff]
  exact h.admits v.stripBuild

/-- **Prereleases have to be asked for in writing.**  A prerelease satisfies a formula if and
only if some range of the formula is written with a prerelease of the same triple and has the
version in its region.  The bounds of each range are met by the ranks of its region alone, and
the prereleases among them are the ones that the range is written with, in the same order:
none is made up, none is lost, and none comes from another range. -/
theorem Formula.satisfies_prerelease_iff {f : Formula} (hf : f.Proper) {v : Version}
    (hv : v.isPrerelease = true) :
    (∃ b, f.satisfies v = .ok b ∧
      (b = true ↔ ∃ r ∈ f.ranges, r.Names v ∧ v.rank ∈ r.region)) ∧
    ∃ d, f.normalize = .ok d ∧
      List.Forall₂ (fun r bs => Conjunction.Denotes bs r.region r.prereleases) f.ranges d := by
  obtain ⟨b, hb, h⟩ := satisfies_eq_ok hf v
  refine ⟨⟨b, hb, h.trans (exists_congr fun r => and_congr_right fun _ => ?_)⟩,
    denotes_normalize hf⟩
  rw [forall_prop_of_true hv]

/-- The formula `>=1.2.3-alpha <2 || ^1.2.0`, of which the second range has `1.2.3-beta` in
its region without asking for it. -/
def Formula.alphaOrCaret : Formula :=
  ⟨[.all [.compare (some .ge) (.version ⟨1, 2, 3, [.alpha "alpha"], []⟩),
      .compare (some .lt) (.major 2)],
    .all [.shorthand (some .caret) (.version ⟨1, 2, 0, [], []⟩)]]⟩

theorem Formula.satisfies_prerelease_iff_alphaOrCaret :
    alphaOrCaret.Proper ∧ Version.isPrerelease ⟨1, 2, 3, [.alpha "beta"], ["7"]⟩ = true ∧
    (∃ b, alphaOrCaret.satisfies ⟨1, 2, 3, [.alpha "beta"], ["7"]⟩ = .ok b ∧
      (b = true ↔ ∃ r ∈ alphaOrCaret.ranges, r.Names ⟨1, 2, 3, [.alpha "beta"], ["7"]⟩ ∧
        Version.rank ⟨1, 2, 3, [.alpha "beta"], ["7"]⟩ ∈ r.region)) ∧
    ∃ d, alphaOrCaret.normalize = .ok d ∧
      List.Forall₂ (fun r bs => Conjunction.Denotes bs r.region r.prereleases)
        alphaOrCaret.ranges d := by
  have hf : alphaOrCaret.Proper := by
    simp only [alphaOrCaret, Proper, List.forall_mem_cons]
    refine ⟨.all ?_, .all ?_, by simp⟩
    · simp only [List.forall_mem_cons]
      exact ⟨.compare _ (.version _), .compare _ (.major 2), by simp⟩
    · simp only [List.forall_mem_cons]
      exact ⟨.shorthand _ (.version _), by simp⟩
  exact ⟨hf, rfl, satisfies_prerelease_iff hf rfl⟩

end SemverRange
