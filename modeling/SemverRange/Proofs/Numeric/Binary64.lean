import Mathlib.Algebra.Order.Field.Power
import Mathlib.Data.Rat.Cast.Order
import Mathlib.Tactic.Linarith
import Mathlib.Tactic.Positivity
import SemverRange.Numeric.Binary64

/-!
# Floating-point numbers as rational numbers

A finite floating-point number is a rational number, and what is asked of the one is a question
about the other: whether it is an integer, and whether it is less than one.

## Main definitions

* `Binary64.toRat?` — the rational number that a finite number is equal to.

## Main results

* `Binary64.toInt?_eq_some_iff` — which integer a number is equal to.
* `Binary64.isLessThanOne_iff` — which numbers are less than one.
-/

namespace SemverRange

namespace Binary64

/-- The rational number that a finite number is equal to. -/
def toRat? : Binary64 → Option ℚ
  | finite negative m q => some (if negative then -((m : ℚ) * 2 ^ q) else (m : ℚ) * 2 ^ q)
  | _ => none

theorem two_zpow_of_neg {q : ℤ} (hq : q < 0) : (2 : ℚ) ^ q = ((2 ^ (-q).toNat : ℕ) : ℚ)⁻¹ := by
  have hneg : q = -((-q).toNat : ℤ) := by omega
  conv_lhs => rw [hneg]
  rw [zpow_neg, zpow_natCast, Nat.cast_pow, Nat.cast_ofNat]

theorem two_zpow_of_nonneg {q : ℤ} (hq : 0 ≤ q) : (2 : ℚ) ^ q = ((2 ^ q.toNat : ℕ) : ℚ) := by
  conv_lhs => rw [← Int.toNat_of_nonneg hq]
  rw [zpow_natCast, Nat.cast_pow, Nat.cast_ofNat]

/-- The natural number that `m·2^q` is equal to. -/
def magnitude? (m : ℕ) (q : ℤ) : Option ℕ :=
  if 0 ≤ q then some (m * Nat.pow 2 q.toNat)
  else if m % Nat.pow 2 (-q).toNat = 0 then some (m / Nat.pow 2 (-q).toNat)
  else none

theorem magnitude?_eq_some_iff {m k : ℕ} {q : ℤ} :
    magnitude? m q = some k ↔ (m : ℚ) * 2 ^ q = k := by
  rw [magnitude?]
  by_cases hq : 0 ≤ q
  · rw [if_pos hq, two_zpow_of_nonneg hq, ← Nat.cast_mul, Nat.cast_inj, Option.some.injEq]
    exact Iff.rfl
  · have hneg : q < 0 := by omega
    have hpos : 0 < 2 ^ (-q).toNat := Nat.two_pow_pos _
    have hne : ((2 ^ (-q).toNat : ℕ) : ℚ) ≠ 0 := Nat.cast_ne_zero.2 hpos.ne'
    rw [if_neg hq, two_zpow_of_neg hneg, mul_inv_eq_iff_eq_mul₀ hne, ← Nat.cast_mul, Nat.cast_inj]
    show (if m % 2 ^ (-q).toNat = 0 then some (m / 2 ^ (-q).toNat) else none) = some k ↔ _
    generalize 2 ^ (-q).toNat = p at hpos
    constructor
    · intro h
      split at h
      · next hmod =>
        obtain rfl := Option.some.inj h
        exact (Nat.div_mul_cancel (Nat.dvd_of_mod_eq_zero hmod)).symm
      · cases h
    · rintro rfl
      rw [Nat.mul_mod_left, if_pos rfl, Nat.mul_div_cancel k hpos]

/-- **A number is equal to an integer if its rational number is.** -/
theorem toInt?_eq_some_iff {x : Binary64} {n : ℤ} :
    x.toInt? = some n ↔ x.toRat? = some (n : ℚ) := by
  cases x with
  | infinite negative => simp [toInt?, toRat?]
  | nan => simp [toInt?, toRat?]
  | finite negative m q =>
    have hmap : (finite negative m q).toInt? =
        (magnitude? m q).map fun k : ℕ => if negative then -(k : ℤ) else k := by
      show Option.map _ (magnitude? m q >>= fun k : ℕ => pure (k : ℤ)) = _
      cases magnitude? m q <;> rfl
    rw [hmap, Option.map_eq_some_iff, toRat?, Option.some.injEq]
    simp only [magnitude?_eq_some_iff]
    cases negative with
    | false =>
      simp only [Bool.false_eq_true, if_false]
      constructor
      · rintro ⟨k, hk, rfl⟩
        exact hk
      · intro h
        -- what is equal to the number is not negative
        have hn : 0 ≤ n := by
          have hle : (0 : ℚ) ≤ n := h ▸ (by positivity)
          exact_mod_cast hle
        refine ⟨n.toNat, ?_, Int.toNat_of_nonneg hn⟩
        rw [h, ← Int.cast_natCast, Int.toNat_of_nonneg hn]
    | true =>
      simp only [if_true]
      constructor
      · rintro ⟨k, hk, rfl⟩
        rw [hk, Int.cast_neg, Int.cast_natCast]
      · intro h
        have hvalue : (m : ℚ) * 2 ^ q = ((-n : ℤ) : ℚ) := by rw [Int.cast_neg, ← h, neg_neg]
        have hn : 0 ≤ -n := by
          have hle : (0 : ℚ) ≤ ((-n : ℤ) : ℚ) := hvalue ▸ (by positivity)
          exact_mod_cast hle
        refine ⟨(-n).toNat, ?_, by omega⟩
        rw [hvalue, ← Int.cast_natCast, Int.toNat_of_nonneg hn]

/-- **A number is less than one if its rational number is**, and so is what is below all of them. -/
theorem isLessThanOne_iff {x : Binary64} :
    x.isLessThanOne = true ↔ (∃ r, x.toRat? = some r ∧ r < 1) ∨ x = infinite true := by
  cases x with
  | nan => simp [isLessThanOne, toRat?]
  | infinite negative => simp [isLessThanOne, toRat?]
  | finite negative m q =>
    simp only [isLessThanOne, toRat?, Option.some.injEq, exists_eq_left', reduceCtorEq, or_false]
    cases negative with
    | true =>
      have hle : (0 : ℚ) ≤ m * 2 ^ q := by positivity
      refine iff_of_true rfl ?_
      rw [if_pos rfl]
      linarith
    | false =>
      rw [if_neg Bool.false_ne_true, Bool.false_or]
      by_cases hq : 0 ≤ q
      · have hpos : 0 < 2 ^ q.toNat := Nat.two_pow_pos _
        rw [if_pos hq, two_zpow_of_nonneg hq, ← Nat.cast_mul, Nat.cast_lt_one, decide_eq_true_eq,
          Nat.mul_eq_zero]
        exact ⟨.inl, fun h => h.resolve_right hpos.ne'⟩
      · have hneg : q < 0 := by omega
        have hpos : (0 : ℚ) < ((2 ^ (-q).toNat : ℕ) : ℚ) := Nat.cast_pos.2 (Nat.two_pow_pos _)
        rw [if_neg hq, two_zpow_of_neg hneg, mul_inv_lt_iff₀ hpos, one_mul, Nat.cast_lt,
          decide_eq_true_eq]
        exact Iff.rfl

end Binary64

end SemverRange
