/-!
# Digits

The digits to a base of at most sixteen.  The letters among them count alike in both
cases when they are read, and are written in lower case.

## Main definitions

* `digit?` — the number that a character stands for as a digit.
* `ofDigits?` — the number that a run of digits stands for.
* `padded` — the digits of a number in at least so many places.

## Main results

* `digit?_digitChar` — a digit that is written reads back.
-/

namespace SemverRange

/-- The number that a character stands for as a digit to the base. -/
def digit? (base : Nat) (c : Char) : Option Nat :=
  let d :=
    if '0' ≤ c ∧ c ≤ '9' then some (c.toNat - '0'.toNat)
    else if 'a' ≤ c ∧ c ≤ 'f' then some (c.toNat - 'a'.toNat + 10)
    else if 'A' ≤ c ∧ c ≤ 'F' then some (c.toNat - 'A'.toNat + 10)
    else none
  d.filter (· < base)

/-- The number that a run of digits to the base stands for. -/
def ofDigits? (base : Nat) (ds : List Char) : Option Nat :=
  ds.foldlM (fun n c => (digit? base c).map (n * base + ·)) 0

/-- The digits of `n` to the base, with zeros in front up to the given width. -/
def padded (base width n : Nat) : List Char :=
  let ds := Nat.toDigits base n
  List.replicate (width - ds.length) '0' ++ ds

/-- A digit that is written reads back. -/
theorem digit?_digitChar {base d : Nat} (hd : d < base) (hbase : base ≤ 16) :
    digit? base (Nat.digitChar d) = some d := by
  have sixteen : ∀ e < 16, digit? 16 (Nat.digitChar e) = some e := by decide
  have h := sixteen d (Nat.lt_of_lt_of_le hd hbase)
  simp only [digit?, Option.filter_eq_some_iff, decide_eq_true_eq] at h ⊢
  exact ⟨h.1, hd⟩

end SemverRange
