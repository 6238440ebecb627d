import Mathlib.Order.Interval.Set.OrdConnected
import SemverRange.Proofs.Dnf.Combination

/-!
# What lies between two versions

Every bound leaves an interval of ranks, and so do bounds that have to be met together.  So what
satisfies a formula of one range has no gaps, as far as precedence goes.  Among prereleases there
are gaps, since they have to be asked for in writing; but a range asks for all prereleases of one
triple if it asks for one of them.

None of this depends on what the range is.  If it has no bounds, or a bound without an operator,
then no version satisfies it.

## Main definitions

* `Conjunction.region` — the ranks of the versions that meet the bounds.

## Main results

* `Conjunction.ordConnected_region` — the region has no gaps.
* `Formula.satisfies_of_between` — **what lies between two versions that satisfy a range**.
-/

namespace SemverRange

open Set

/-! ### Intervals -/

/-- What stands to an element as an operator says is an interval. -/
theorem Op.ordConnected_holds {α : Type} [LinearOrder α] (o : Op) (y : α) :
    OrdConnected {x | o.Holds x y} := by
  cases o with
  | eq => exact ordConnected_singleton
  | lt => exact ordConnected_Iio
  | le => exact ordConnected_Iic
  | gt => exact ordConnected_Ioi
  | ge => exact ordConnected_Ici

namespace Conjunction

/-- Where a version may stand that meets the bounds.  No version meets a bound without an
operator. -/
def region (bs : Conjunction) : Set Precedence :=
  {x | ∀ c ∈ bs, ∃ o, c.op = some o ∧ o.Holds x c.version.rank}

/-- Bounds leave an interval. -/
theorem ordConnected_region (bs : Conjunction) : OrdConnected bs.region := by
  refine ⟨fun x hx y hy z hz c hc => ?_⟩
  obtain ⟨o, ho, hxo⟩ := hx c hc
  obtain ⟨p, hp, hyp⟩ := hy c hc
  obtain rfl : o = p := Option.some.inj (ho.symm.trans hp)
  exact ⟨o, ho, (o.ordConnected_holds c.version.rank).out hxo hyp hz⟩

end Conjunction

/-! ### Bounds that are met -/

/-- A bound that is met has an operator, which holds. -/
theorem Comparator.check_eq_ok_true_iff (c : Comparator) (v : Version) :
    c.check v = .ok true ↔ ∃ o, c.op = some o ∧ o.Holds v.rank c.version.rank := by
  rw [check]
  cases c.op with
  | none => simp [throw, throwThe, MonadExceptOf.throw]
  | some o => simp [pure, Except.pure, Op.holds_relation_iff]

theorem allM_eq_ok_true_iff {α : Type} {test : α → Except Fault Bool} {as : List α} :
    allM test as = .ok true ↔ ∀ a ∈ as, test a = .ok true := by
  induction as with
  | nil => simp [allM, pure, Except.pure]
  | cons a as ih =>
    rw [List.forall_mem_cons, ← ih, allM]
    cases htest : test a with
    | error f => simp [bind, Except.bind]
    | ok b => cases b <;> simp [bind, Except.bind, pure, Except.pure]

/-- One alternative. -/
theorem anyM_singleton {α : Type} (test : α → Except Fault Bool) (a : α) :
    anyM test [a] = test a := by
  rw [anyM]
  cases test a with
  | error f => rfl
  | ok b => cases b <;> rfl

namespace Conjunction

variable (bs : Conjunction) {v w : Version}

theorem check_eq_ok_true_iff : bs.check v = .ok true ↔ v.rank ∈ bs.region := by
  rw [check, allM_eq_ok_true_iff]
  exact forall₂_congr fun c _ => c.check_eq_ok_true_iff v

/-- Whether a version is asked for depends on its triple. -/
theorem asksFor_congr (h : v.triple = w.triple) : bs.asksFor v = bs.asksFor w := by
  rw [asksFor, asksFor, h]

/-- Bounds admit a version of their region, which has to be asked for if it is a prerelease. -/
theorem admits_eq_ok_true_iff : bs.admits v = .ok true ↔
    (v.isPrerelease = true → bs.asksFor v = true) ∧ v.rank ∈ bs.region := by
  rw [← check_eq_ok_true_iff, admits]
  cases v.isPrerelease <;> cases bs.asksFor v <;> simp [pure, Except.pure]

end Conjunction

/-! ### One range -/

/-- A version satisfies a formula of one range if the range has bounds, which admit it. -/
theorem Formula.satisfies_singleton_iff {r : Range} {v : Version} :
    Formula.satisfies ⟨[r]⟩ v = .ok true ↔ ∃ bs, r.bounds = .ok bs ∧
      (v.isPrerelease = true → bs.asksFor v = true) ∧ v.rank ∈ bs.region := by
  have hnormalize : Formula.normalize ⟨[r]⟩ = r.bounds.map fun bs => [bs] := by
    rw [normalize, List.mapM_cons, List.mapM_nil]
    cases r.bounds <;> rfl
  rw [satisfies, hnormalize]
  cases r.bounds with
  | error f => simp [Except.map, bind, Except.bind]
  | ok bs =>
    simp only [Except.map, bind, Except.bind, Dnf.satisfies, anyM_singleton, Except.ok.injEq,
      exists_eq_left']
    exact bs.admits_eq_ok_true_iff

/-- **What lies between two versions that satisfy a range.**  If two versions satisfy a formula of
one range, so does every version between them that is a release, or a prerelease of the same triple
as one of the two that is a prerelease itself. -/
theorem Formula.satisfies_of_between {f : Formula} {r : Range} (hf : f.ranges = [r])
    {a b c : Version} (hab : Relation.le.holds a b = true) (hbc : Relation.le.holds b c = true)
    (ha : f.satisfies a = .ok true) (hc : f.satisfies c = .ok true)
    (hb : b.isPrerelease = true → a.isPrerelease = true ∧ b.triple = a.triple ∨
      c.isPrerelease = true ∧ b.triple = c.triple) : f.satisfies b = .ok true := by
  obtain ⟨rs⟩ := f
  obtain rfl : rs = [r] := hf
  obtain ⟨bs, hbs, hasksA, hregionA⟩ := satisfies_singleton_iff.1 ha
  obtain ⟨ds, hds, hasksC, hregionC⟩ := satisfies_singleton_iff.1 hc
  obtain rfl : bs = ds := Except.ok.inj (hbs.symm.trans hds)
  have hle : a.rank ≤ b.rank := (Op.le.holds_relation_iff a b).1 hab
  have hle' : b.rank ≤ c.rank := (Op.le.holds_relation_iff b c).1 hbc
  refine satisfies_singleton_iff.2 ⟨bs, hbs, ?_, ?_⟩
  · intro hpre
    rcases hb hpre with ⟨hpreA, htriple⟩ | ⟨hpreC, htriple⟩
    · rw [bs.asksFor_congr htriple]
      exact hasksA hpreA
    · rw [bs.asksFor_congr htriple]
      exact hasksC hpreC
  · exact bs.ordConnected_region.out hregionA hregionC ⟨hle, hle'⟩

/-- The formula `>=1.2.3-alpha <2`, and the prerelease `1.2.3-beta` between `1.2.3-alpha` and the
release `1.9.0`. -/
theorem Formula.satisfies_of_between_betaBelowTwo :
    Relation.le.holds ⟨1, 2, 3, [.alpha "alpha"], []⟩ ⟨1, 2, 3, [.alpha "beta"], ["7"]⟩ = true ∧
    Relation.le.holds ⟨1, 2, 3, [.alpha "beta"], ["7"]⟩ ⟨1, 9, 0, [], []⟩ = true ∧
    Formula.satisfies ⟨[.all [.fromAlpha, .belowTwo]]⟩ ⟨1, 2, 3, [.alpha "alpha"], []⟩ = .ok true ∧
    Formula.satisfies ⟨[.all [.fromAlpha, .belowTwo]]⟩ ⟨1, 9, 0, [], []⟩ = .ok true ∧
    Formula.satisfies ⟨[.all [.fromAlpha, .belowTwo]]⟩ ⟨1, 2, 3, [.alpha "beta"], ["7"]⟩ =
      .ok true := by
  have hab : Relation.le.holds ⟨1, 2, 3, [.alpha "alpha"], []⟩
      ⟨1, 2, 3, [.alpha "beta"], ["7"]⟩ = true := by decide
  have hbc : Relation.le.holds ⟨1, 2, 3, [.alpha "beta"], ["7"]⟩ ⟨1, 9, 0, [], []⟩ = true := rfl
  have ha : Formula.satisfies ⟨[.all [.fromAlpha, .belowTwo]]⟩
      ⟨1, 2, 3, [.alpha "alpha"], []⟩ = .ok true := by decide
  have hc : Formula.satisfies ⟨[.all [.fromAlpha, .belowTwo]]⟩ ⟨1, 9, 0, [], []⟩ = .ok true := by
    decide
  exact ⟨hab, hbc, ha, hc, satisfies_of_between rfl hab hbc ha hc fun _ => .inl ⟨rfl, rfl⟩⟩

end SemverRange
