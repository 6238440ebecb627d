import Mathlib.Data.List.Lex
import Mathlib.Data.Prod.Lex
import Mathlib.Data.String.Basic
import Mathlib.Data.Sum.Order
import Mathlib.Order.WithBot
import SemverRange.Version.Order

/-!
# Precedence as a linear order

Versions of equal precedence need not be equal, so precedence is no linear order on
versions.  It is the pullback of one: a version has a *rank*, its triple followed by what
its prerelease part contributes, and ranks are ordered lexicographically.  A release
contributes the top element, hence it comes after its prereleases; a prerelease contributes
the list of its identifiers.

Everything that is known about linear orders then holds of versions through their ranks.

## Main definitions

* `Precedence` — the order of the ranks.
* `Identifier.rank`, `Version.rank` — where an identifier and a version stand.
* `Version.lexTriple` — the triple of a version, ordered lexicographically.

## Main results

* `Version.before_iff`, `Version.same_iff` — the comparisons are those of the ranks.
* `Version.rank_le_release_iff` and its companions — for comparisons with a release the
  triples are enough, up to the question which of the two is a prerelease.
-/

namespace SemverRange

/-- Where an identifier stands: numbers in their order, and after them texts in theirs. -/
def Identifier.rank : Identifier → ℤ ⊕ₗ String
  | .num n => toLex (.inl n)
  | .alpha s => toLex (.inr s)

theorem Identifier.rank_injective : Function.Injective Identifier.rank := by
  intro i j h
  cases i <;> cases j <;> simp_all [rank]

theorem Identifier.before_iff (i j : Identifier) : i.before j = true ↔ i.rank < j.rank := by
  cases i <;> cases j
  · simp only [before, rank, decide_eq_true_eq, Sum.Lex.inl_lt_inl_iff]
  · simp only [before, rank, Sum.Lex.inl_lt_inr]
  · simp only [before, rank, Bool.false_eq_true, Sum.Lex.not_inr_lt_inl]
  · simp only [before, rank, decide_eq_true_eq, Sum.Lex.inr_lt_inr_iff]

theorem Identifier.listBefore_iff : ∀ is js : List Identifier,
    listBefore is js = true ↔ is.map rank < js.map rank := by
  intro is
  induction is with
  | nil =>
    intro js
    cases js <;> simp [listBefore]
  | cons i is ih =>
    intro js
    cases js with
    | nil => simp [listBefore]
    | cons j js =>
      rw [listBefore, List.map_cons, List.map_cons, List.cons_lt_cons_iff]
      split
      · next h =>
        subst h
        simp [ih]
      · next h =>
        have hne : i.rank ≠ j.rank := fun he => h (rank_injective he)
        simp [before_iff, hne]

/-- The order of the ranks: triples first, then the lists of identifiers with a top element
for the releases. -/
abbrev Precedence := (ℕ ×ₗ ℕ ×ₗ ℕ) ×ₗ WithTop (List (ℤ ⊕ₗ String))

namespace Version

/-- The triple of the version, ordered lexicographically. -/
def lexTriple (v : Version) : ℕ ×ₗ ℕ ×ₗ ℕ := toLex (v.major, toLex (v.minor, v.patch))

/-- What the prerelease part contributes to the rank; without one, the version comes last. -/
def tag (v : Version) : WithTop (List (ℤ ⊕ₗ String)) :=
  if v.isPrerelease then (v.prerelease.map Identifier.rank : List (ℤ ⊕ₗ String)) else ⊤

/-- Where a version stands by precedence. -/
def rank (v : Version) : Precedence := toLex (v.lexTriple, v.tag)

theorem lexTriple_le_iff (v w : Version) : v.lexTriple ≤ w.lexTriple ↔
    v.major < w.major ∨ v.major = w.major ∧
      (v.minor < w.minor ∨ v.minor = w.minor ∧ v.patch ≤ w.patch) := by
  simp only [lexTriple, Prod.Lex.toLex_le_toLex]

theorem lexTriple_lt_iff (v w : Version) : v.lexTriple < w.lexTriple ↔
    v.major < w.major ∨ v.major = w.major ∧
      (v.minor < w.minor ∨ v.minor = w.minor ∧ v.patch < w.patch) := by
  simp only [lexTriple, Prod.Lex.toLex_lt_toLex]

theorem lexTriple_eq_iff (v w : Version) : v.lexTriple = w.lexTriple ↔
    v.major = w.major ∧ v.minor = w.minor ∧ v.patch = w.patch := by
  simp only [lexTriple, toLex_inj, Prod.mk.injEq]

theorem triple_eq_iff (v w : Version) : v.triple = w.triple ↔
    v.major = w.major ∧ v.minor = w.minor ∧ v.patch = w.patch := by
  simp only [triple, Prod.mk.injEq]

@[simp] theorem tag_eq_top_iff (v : Version) : v.tag = ⊤ ↔ v.isPrerelease = false := by
  unfold tag
  split <;> simp_all

theorem tag_lt_tag_iff (a b : Version) : a.tag < b.tag ↔ prereleaseBefore a b = true := by
  unfold tag prereleaseBefore
  cases a.isPrerelease <;> cases b.isPrerelease <;>
    simp [Identifier.listBefore_iff]

theorem tag_eq_tag_iff (a b : Version) : a.tag = b.tag ↔ a.prerelease = b.prerelease := by
  constructor
  · intro h
    unfold tag isPrerelease at h
    cases ha : a.prerelease <;> cases hb : b.prerelease <;> simp_all
    exact ⟨Identifier.rank_injective h.1,
      (List.map_injective_iff.2 Identifier.rank_injective) h.2⟩
  · intro h
    rw [tag, tag, isPrerelease, isPrerelease, h]

/-- **Lower precedence is a smaller rank.** -/
theorem before_iff (a b : Version) : a.before b = true ↔ a.rank < b.rank := by
  rw [rank, rank, Prod.Lex.toLex_lt_toLex, lexTriple_lt_iff, lexTriple_eq_iff, tag_lt_tag_iff,
    before]
  by_cases h1 : a.major = b.major <;> by_cases h2 : a.minor = b.minor <;>
    by_cases h3 : a.patch = b.patch <;> simp [h1, h2, h3]

/-- **The same precedence is the same rank.** -/
theorem same_iff (a b : Version) : a.same b = true ↔ a.rank = b.rank := by
  rw [rank, rank, toLex_inj, Prod.mk.injEq, lexTriple_eq_iff, tag_eq_tag_iff, same,
    decide_eq_true_eq, triple_eq_iff]

/-! ### Comparisons with a release -/

section Release

variable {v : Version} (hv : v.isPrerelease = false) (w : Version)
include hv

theorem tag_of_release : v.tag = ⊤ := (tag_eq_top_iff v).2 hv

theorem rank_le_release_iff : w.rank ≤ v.rank ↔ w.lexTriple ≤ v.lexTriple := by
  rw [rank, rank, Prod.Lex.toLex_le_toLex, tag_of_release hv, le_iff_lt_or_eq (a := w.lexTriple)]
  simp only [le_top, and_true]

theorem release_lt_rank_iff : v.rank < w.rank ↔ v.lexTriple < w.lexTriple := by
  rw [← not_le, rank_le_release_iff hv, not_le]

theorem release_eq_rank_iff :
    v.rank = w.rank ↔ v.lexTriple = w.lexTriple ∧ w.isPrerelease = false := by
  rw [rank, rank, toLex_inj, Prod.mk.injEq, tag_of_release hv, eq_comm (a := ⊤), tag_eq_top_iff]

theorem release_le_rank_iff : v.rank ≤ w.rank ↔
    v.lexTriple < w.lexTriple ∨ v.lexTriple = w.lexTriple ∧ w.isPrerelease = false := by
  rw [le_iff_lt_or_eq, release_lt_rank_iff hv, release_eq_rank_iff hv]

end Release

@[simp] theorem isPrerelease_release (a b c : ℕ) : (release a b c).isPrerelease = false := rfl

end Version

end SemverRange
