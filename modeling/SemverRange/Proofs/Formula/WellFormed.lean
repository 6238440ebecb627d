import Mathlib.Tactic.Ring
import SemverRange.Proofs.Formula.RoundTrip

/-!
# What is read is well formed

A derivation without long numerals denotes a well-formed formula: its runs of digits stand for
numbers that can be written again, and its identifiers are identifiers.  So whatever is read
from a text can be written.

## Main results

* `Grammar.Digits.legible` — a numeral that is not too long stands for a legible number.
* `Formula.wellFormed_of_parse` — **what is read is well formed**.
-/

namespace SemverRange

namespace Grammar

/-! ### Numbers and identifiers -/

/-- So many digits after the number `n` leave it below what the next number with zeros would
be. -/
theorem ofDigitChars_lt {ds : List Char} (h : ∀ c ∈ ds, c.isDigit = true) (n : ℕ) :
    Nat.ofDigitChars 10 ds n < (n + 1) * 10 ^ ds.length := by
  induction ds generalizing n with
  | nil => simp
  | cons c ds ih =>
    have hc : c.toNat - '0'.toNat < 10 := by
      have hbounds := toNat_of_isDigit (h c List.mem_cons_self)
      have hzero : '0'.toNat = 48 := rfl
      omega
    rw [Nat.ofDigitChars_cons]
    calc Nat.ofDigitChars 10 ds (10 * n + (c.toNat - '0'.toNat))
        < (10 * n + (c.toNat - '0'.toNat) + 1) * 10 ^ ds.length :=
          ih (fun c' hc' => h c' (List.mem_cons_of_mem c hc')) _
      _ ≤ (10 * (n + 1)) * 10 ^ ds.length := Nat.mul_le_mul_right _ (by omega)
      _ = (n + 1) * 10 ^ (c :: ds).length := by
          rw [List.length_cons, pow_succ]
          ring

/-- The numeral of the number that digits stand for is not longer than the digits. -/
theorem legible_ofDigitChars {ds : List Char} (hdigits : ∀ c ∈ ds, c.isDigit = true)
    (hlen : ds.length ≤ Numeral.limit) : Legible (Nat.ofDigitChars 10 ds 0 : ℕ) := by
  rw [legible_natCast, Nat.length_toDigits_le_iff (by decide) (by decide)]
  have hlt := ofDigitChars_lt hdigits 0
  have hmono : 10 ^ ds.length ≤ 10 ^ Numeral.limit := Nat.pow_le_pow_right (by decide) hlen
  omega

theorem Digits.legible {ds : Digits} (hlen : ds.1.length ≤ Numeral.limit) : Legible ds.value :=
  legible_ofDigitChars ds.2.2 hlen

theorem Ident.isIdentifier_ofList (i : Ident) : IsIdentifier (String.ofList i.1) := by
  refine ⟨fun h => i.2.1 ?_, ?_⟩
  · rw [← String.toList_ofList (l := i.1), h]
    rfl
  · rw [String.toList_ofList]
    exact List.all_eq_true.2 i.2.2

theorem Ident.wellFormed_denote {i : Ident}
    (hlen : i.1.all Char.isDigit = true → i.1.length ≤ Numeral.limit) : i.denote.WellFormed := by
  rw [denote]
  split
  · next hdigits =>
    exact .num (legible_ofDigitChars (List.all_eq_true.1 hdigits) (hlen hdigits))
  · next hdigits =>
    refine .alpha i.isIdentifier_ofList ?_
    rw [String.toList_ofList]
    exact Bool.eq_false_iff.2 hdigits

/-! ### Targets, clauses, ranges and formulas -/

theorem Target.legible_of_mem_values {t : Target} (hshort : Short t.numerals) {n : ℕ}
    (hn : n ∈ (t.first :: t.more).filterMap Part.value?) : Legible n := by
  obtain ⟨p, hp, hpn⟩ := List.mem_filterMap.1 hn
  cases p with
  | number ds =>
    cases hpn
    refine ds.legible (hshort ds.1 (List.mem_append_left _ ?_))
    exact List.mem_filterMap.2 ⟨.number ds, hp, rfl⟩
  | wildcard c => cases hpn

theorem Target.wellFormed_pre {t : Target} (hshort : Short t.numerals) :
    ∀ i ∈ t.pre.elim [] fun is => is.1.map Ident.denote, i.WellFormed := by
  intro x hx
  cases hpre : t.pre with
  | none =>
    rw [hpre] at hx
    cases hx
  | some is =>
    rw [hpre] at hx
    obtain ⟨i, hi, rfl⟩ := List.mem_map.1 hx
    refine i.wellFormed_denote fun hdigits => hshort i.1 (List.mem_append_right _ ?_)
    rw [hpre]
    exact List.mem_filter.2 ⟨List.mem_map.2 ⟨i, hi, rfl⟩, hdigits⟩

theorem Target.wellFormed_build (t : Target) :
    ∀ s ∈ t.build.elim [] fun is => is.1.map fun i => String.ofList i.1, IsIdentifier s := by
  intro s hs
  cases hbuild : t.build with
  | none =>
    rw [hbuild] at hs
    cases hs
  | some is =>
    rw [hbuild] at hs
    obtain ⟨i, -, rfl⟩ := List.mem_map.1 hs
    exact i.isIdentifier_ofList

theorem Target.wellFormed_denote {t : Target} (hshort : Short t.numerals) :
    t.denote.WellFormed := by
  have hlegible : ∀ n ∈ (t.first :: t.more).filterMap Part.value?, Legible n :=
    fun n hn => t.legible_of_mem_values hshort hn
  rw [denote]
  split
  · next a b c hvalues =>
    rw [hvalues] at hlegible
    exact .version ⟨hlegible a (by simp), hlegible b (by simp), hlegible c (by simp),
      t.wellFormed_pre hshort, t.wellFormed_build⟩
  · next a b hvalues =>
    rw [hvalues] at hlegible
    exact .minor (hlegible a (by simp)) (hlegible b (by simp))
  · next a hvalues =>
    rw [hvalues] at hlegible
    exact .major (hlegible a (by simp))
  · exact .any

theorem Clause.wellFormed_denote {c : Clause} (hshort : Short c.target.numerals) :
    c.denote.WellFormed := by
  cases c with
  | bare t => exact .bare (t.wellFormed_denote hshort)
  | compare o b t => exact .compare o (t.wellFormed_denote hshort)
  | shorthand s b t => exact .shorthand s (t.wellFormed_denote hshort)

theorem Range.wellFormed_denote {r : Range} (hshort : ∀ t ∈ r.targets, Short t.numerals) :
    r.denote.WellFormed := by
  cases r with
  | all c more =>
    rw [targets, List.forall_mem_cons, List.forall_mem_map] at hshort
    refine .all (List.cons_ne_nil _ _) (List.forall_mem_cons.2 ⟨?_, List.forall_mem_map.2 ?_⟩)
    · exact c.wellFormed_denote hshort.1
    · exact fun m hm => m.2.wellFormed_denote (hshort.2 m hm)
  | between l b a u =>
    exact .between (l.wellFormed_denote (hshort l (by simp [targets])))
      (u.wellFormed_denote (hshort u (by simp [targets])))

/-- A derivation without long numerals denotes a well-formed formula. -/
theorem Formula.wellFormed_denote {d : Formula} (hshort : Short d.numerals) :
    d.denote.WellFormed := by
  cases d with
  | blank b =>
    refine ⟨List.cons_ne_nil _ _, List.forall_mem_singleton.2 ?_⟩
    exact .all (List.cons_ne_nil _ _) (List.forall_mem_singleton.2 (.bare .any))
  | ranges b r more a =>
    have htargets : ∀ t ∈ r.targets ++ more.flatMap (fun m => m.2.2.targets), Short t.numerals :=
      short_flatMap.1 hshort
    rw [List.forall_mem_append, List.forall_mem_flatMap] at htargets
    refine ⟨List.cons_ne_nil _ _, List.forall_mem_cons.2 ⟨?_, List.forall_mem_map.2 ?_⟩⟩
    · exact r.wellFormed_denote htargets.1
    · exact fun m hm => m.2.2.wellFormed_denote (htargets.2 m hm)

end Grammar

/-- **What is read is well formed**, and so it can be written. -/
theorem Formula.wellFormed_of_parse {text : String} {f : Formula}
    (h : Formula.parse text = .ok f) : f.WellFormed := by
  obtain ⟨d, -, hshort, rfl⟩ := exists_derivation_of_parse h
  exact d.wellFormed_denote hshort

end SemverRange
