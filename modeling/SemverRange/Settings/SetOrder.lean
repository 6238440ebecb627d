import SemverRange.Settings.Document

/-!
# The order of the numbers in a set

A set has no order of its own, yet it is shown in one.  Its numbers are spread over a
table with room for more than twice as many: each is reduced modulo a prime that is one
less than a power of two, and its place is the remainder by the width of the table, or a
later one if that is taken.  The set is shown in the order of the places.

## Main definitions

* `SetOrder.residue?` — a number modulo the prime.
* `SetOrder.width` — the width of the table.
* `SetOrder.places` — the elements with their places.
* `Document.inSetOrder` — the elements of a set as they are shown.

## Main results

* `inSetOrder_perm` — nothing is lost or added.
-/

namespace SemverRange

namespace SetOrder

/-- The exponent of the power of two that is one more than the prime. -/
def exponent : Nat := 61

/-- The prime by which numbers are reduced. -/
def prime : Nat := Nat.pow 2 exponent - 1

/-- What stands for infinity. -/
def infinity : Nat := 314159

/-- A number modulo the prime, with its sign.  Powers of two go round with the exponent,
so a half counts as the power of two before the last. -/
def residue? (d : Document) : Option Int :=
  match d.asInt?, d with
  | some n, _ => some (n.tmod prime)
  | none, .float (.finite negative m q) =>
    let r := m * Nat.pow 2 (q.emod exponent).toNat % prime
    some (if negative then -(r : Int) else r)
  | none, .float (.infinite negative) =>
    some (if negative then -(infinity : Int) else infinity)
  | _, _ => none

/-- The width of the table for `n` elements: a power of two that is greater than twice
their number, and at least eight.  Four elements still fit the least table. -/
def width (n : Nat) : Nat := if n ≤ 4 then 8 else Nat.pow 2 (Nat.log2 (2 * n) + 1)

/-- The number that decides the place of an element, in 64 bits.  The residue of minus one
counts as minus two, and what is no number as zero. -/
def code (d : Document) : Nat :=
  match residue? d with
  | some r => ((if r = -1 then -2 else r).emod (Nat.pow 2 64)).toNat
  | none => 0

/-- The places that are tried together: a run of ten, if the table is wide enough for it. -/
def run (width i : Nat) : List Nat :=
  if i + 9 < width then (List.range 10).map (i + ·) else [i]

/-- The first place from `i` on that is not taken.  From one run to the next the leading
bits of the code are mixed in, until nothing is left of them; from then on all places have
their turn, so `fuel` need only be greater than the width by the number of those steps. -/
def freePlace (width : Nat) (taken : List Nat) (fuel rest i : Nat) : Nat :=
  match fuel with
  | 0 => i
  | fuel + 1 =>
    match (run width i).find? fun j => !taken.contains j with
    | some j => j
    | none => freePlace width taken fuel (rest / 32) ((5 * i + 1 + rest / 32) % width)

/-- The elements with their places, each of which is free when the element comes. -/
def places (width : Nat) (taken : List Nat) : List Document → List (Nat × Document)
  | [] => []
  | d :: ds =>
    let j := freePlace width taken (width + 14) (code d) (code d % width)
    (j, d) :: places width (j :: taken) ds

theorem map_snd_places (width : Nat) (taken : List Nat) (ds : List Document) :
    (places width taken ds).map Prod.snd = ds := by
  induction ds generalizing taken with
  | nil => rfl
  | cons d ds ih => simp [places, ih]

end SetOrder

namespace Document

/-- The elements of a set in the order in which they are shown. -/
def inSetOrder (items : List Document) : List Document :=
  let placed := SetOrder.places (SetOrder.width items.length) [] items
  (placed.mergeSort fun a b => a.1 ≤ b.1).map Prod.snd

/-- Nothing is lost or added. -/
theorem inSetOrder_perm (items : List Document) : (inSetOrder items).Perm items := by
  have h := (List.mergeSort_perm (SetOrder.places (SetOrder.width items.length) [] items)
    fun a b => decide (a.1 ≤ b.1)).map Prod.snd
  rwa [SetOrder.map_snd_places] at h

end Document

end SemverRange
