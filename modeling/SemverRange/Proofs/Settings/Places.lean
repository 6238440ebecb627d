import Mathlib.Data.List.Lex
import Mathlib.Data.String.Basic
import SemverRange.Proofs.Settings.Constraints
import SemverRange.Settings.Load

/-!
# What is wrong, sorted by place

The keys that lead to a place tell where it stands among the others: what is wrong with a document
is listed in the order of these keys.  So it does not matter in which order the places are visited,
if only what is wrong at one place is found in its order.  Sorted by place, the list is the same.

## Main definitions

* `keyLe` — the key of the one element comes no later than that of the other.
* `FoundIn` — at each place there is found what is wrong with it.
* `Settings.report` — what is found, sorted by place and told.

## Main results

* `eq_of_pairwise_of_filter`, `filter_mergeSort_keyLe` — a list that is sorted by a key is known by
  what has each key, and sorting keeps that.
* `mergeSort_eq_violations` — **whatever is found is sorted into the same list.**
* `Settings.report_eq_validate` — the message that a document is refused with, from what is found.
-/

namespace SemverRange

/-! ### Lists that are sorted by a key -/

section Sorted

variable {α κ : Type} [LinearOrder κ] (key : α → κ) {as bs : List α}

/-- The key of the one element comes no later than that of the other. -/
def keyLe (a b : α) : Bool := key a ≤ key b

theorem keyLe_trans (a b c : α) (hab : keyLe key a b = true) (hbc : keyLe key b c = true) :
    keyLe key a c = true :=
  decide_eq_true ((of_decide_eq_true hab).trans (of_decide_eq_true hbc))

theorem keyLe_total (a b : α) : (keyLe key a b || keyLe key b a) = true := by
  rw [keyLe, keyLe, Bool.or_eq_true, decide_eq_true_eq, decide_eq_true_eq]
  exact le_total (key a) (key b)

/-- A list that is sorted by a key is known by what has each key, in its order. -/
theorem eq_of_pairwise_of_filter (has : as.Pairwise (key · ≤ key ·))
    (hbs : bs.Pairwise (key · ≤ key ·))
    (h : ∀ c, as.filter (key · = key c) = bs.filter (key · = key c)) : as = bs := by
  have hmem {cs ds : List α} (h : ∀ c, cs.filter (key · = key c) = ds.filter (key · = key c))
      {c : α} (hc : c ∈ cs) : c ∈ ds := by
    have hfilter : c ∈ cs.filter (key · = key c) := List.mem_filter.2 ⟨hc, decide_eq_true rfl⟩
    rw [h] at hfilter
    exact (List.mem_filter.1 hfilter).1
  have hfirst {c d : α} {cs : List α} (hcs : (c :: cs).Pairwise (key · ≤ key ·))
      (hd : d ∈ c :: cs) : key c ≤ key d := by
    rcases List.mem_cons.1 hd with rfl | hd
    · exact le_rfl
    · exact List.rel_of_pairwise_cons hcs hd
  induction as generalizing bs with
  | nil =>
    refine (List.eq_nil_iff_forall_not_mem.2 fun b hb => ?_).symm
    exact List.not_mem_nil (hmem (fun c => (h c).symm) hb)
  | cons a as ih =>
    cases bs with
    | nil => exact absurd (hmem h List.mem_cons_self) List.not_mem_nil
    | cons b bs =>
      -- neither of the first two can come later than the other
      have hkey : key a = key b :=
        le_antisymm (hfirst has (hmem (fun c => (h c).symm) List.mem_cons_self))
          (hfirst hbs (hmem h List.mem_cons_self))
      have hcons := h a
      simp only [List.filter_cons, hkey, decide_true, if_true] at hcons
      obtain ⟨rfl, -⟩ := List.cons.inj hcons
      congr 1
      refine ih has.of_cons hbs.of_cons fun c => ?_
      have hc := h c
      rw [List.filter_cons, List.filter_cons] at hc
      split at hc
      · exact (List.cons.inj hc).2
      · exact hc

theorem pairwise_mergeSort_keyLe (as : List α) :
    (as.mergeSort (keyLe key)).Pairwise (key · ≤ key ·) :=
  (List.pairwise_mergeSort (keyLe_trans key) (keyLe_total key) as).imp of_decide_eq_true

/-- Sorting by a key keeps what has each key, in its order. -/
theorem filter_mergeSort_keyLe (as : List α) (k : κ) :
    (as.mergeSort (keyLe key)).filter (key · = k) = as.filter (key · = k) := by
  have hsorted : (as.filter (key · = k)).Pairwise fun a b => keyLe key a b = true := by
    refine List.pairwise_of_forall_mem_list fun a ha b hb => decide_eq_true ?_
    rw [of_decide_eq_true (List.mem_filter.1 ha).2, of_decide_eq_true (List.mem_filter.1 hb).2]
  have hsublist := (List.sublist_mergeSort (keyLe_trans key) (keyLe_total key) hsorted
    List.filter_sublist).filter (key · = k)
  rw [List.filter_filter] at hsublist
  simp only [Bool.and_self] at hsublist
  have hlength := ((List.mergeSort_perm as (keyLe key)).filter (key · = k)).length_eq
  exact (hsublist.eq_of_length hlength.symm).symm

end Sorted

/-! ### Violations by place -/

theorem SettingPath.names_injective : Function.Injective SettingPath.names := by
  intro p q h
  cases p <;> cases q <;> simp_all [names]

/-- The violation of a constraint is where the constraint is. -/
theorem Constraint.path_of_violation? {c : Constraint} {p : SettingPath} {v : Document}
    {x : Violation} (h : c.violation? p v = some x) : x.path = p := by
  cases c with
  | kind k =>
    obtain rfl := eq_wrongKind_of_violation? h
    rfl
  | names ns =>
    cases v with
    | map es =>
      rw [violation?] at h
      split at h
      · cases h
      · obtain rfl := Option.some.inj h
        rfl
    | _ => cases h
  | minimum =>
    rw [violation?] at h
    split at h
    · obtain rfl := Option.some.inj h
      rfl
    · cases h

/-- All that is wrong is listed in the order of the places. -/
theorem pairwise_violations (d : Document) :
    (violations d).Pairwise fun x y => x.path.names ≤ y.path.names := by
  have htable : constraints.Pairwise fun pc pc' => pc.1.names ≤ pc'.1.names := by decide
  have hpath {pc : SettingPath × Constraint} {x : Violation} (hx : d.violationOf pc = some x) :
      x.path = pc.1 := by
    obtain ⟨v, -, hv⟩ := Option.bind_eq_some_iff.1 hx
    exact Constraint.path_of_violation? hv
  rw [violations_eq, List.pairwise_filterMap]
  refine htable.imp fun {pc pc'} hle x hx y hy => ?_
  rwa [hpath hx, hpath hy]

variable {d : Document} {xs : List Violation}

/-- At each place the violations are those of the document, in their order; but the places can come
in any order, and in turns. -/
def FoundIn (d : Document) (xs : List Violation) : Prop :=
  ∀ p, xs.filter (·.path = p) = (violations d).filter (·.path = p)

/-- **Whatever is found is sorted into the same list**, if at each place it is found in its
order. -/
theorem mergeSort_eq_violations (h : FoundIn d xs) :
    xs.mergeSort (keyLe (·.path.names)) = violations d := by
  refine eq_of_pairwise_of_filter (fun x : Violation => x.path.names)
    (pairwise_mergeSort_keyLe _ xs) (pairwise_violations d) fun x => ?_
  rw [filter_mergeSort_keyLe]
  simp only [SettingPath.names_injective.eq_iff]
  exact h x.path

/-- What is found, sorted by place and told. -/
def Settings.report (xs : List Violation) : Except Fault Unit := do
  let lines ← ((xs.mergeSort (keyLe (·.path.names))).mapM Violation.describe).mapError .ofNumeral
  if lines.isEmpty then pure () else throw (.invalid lines)

/-- Validation reports what is found, in whatever order the places are visited. -/
theorem Settings.report_eq_validate (h : FoundIn d xs) : report xs = validate d := by
  rw [report, mergeSort_eq_violations h]
  rfl

end SemverRange
