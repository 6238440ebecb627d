import Mathlib.Order.Compare
import SemverRange.Proofs.Dnf.Bounds

/-!
# The comparison of versions is their precedence

Precedence is usually given as a three-way comparison, by recursion on the parts: the numbers of
the triple in turn, then the prerelease parts, of which a missing one is the greatest, identifier
by identifier.  Here it stands in that form, and the comparison of versions is proved to be it.

Both are compared with the order of the ranks, which is linear.  So the comparison has the laws of
a linear order, up to build metadata, and each of the six relations is a question about its
result.

## Main definitions

* `Identifier.order`, `Version.order` — precedence by recursion.
* `Relation.accepts` — the results of a comparison for which a relation holds.

## Main results

* `Version.compares_order`, `Version.compares_compare` — the two comparisons are those of the
  ranks.
* `Version.compare_laws` — **the comparison is precedence, a total order up to build metadata, and
  all relations and bounds agree with it**.
-/

namespace SemverRange

/-- The three-way comparison of identifiers: numbers numerically, numbers below texts, and texts
by code points. -/
def Identifier.order : Identifier → Identifier → Ordering
  | .num m, .num n => Ord.compare m n
  | .num _, .alpha _ => .lt
  | .alpha _, .num _ => .gt
  | .alpha s, .alpha t => List.compareLex (compareOn Char.toNat) s.toList t.toList

/-- The three-way comparison of prerelease parts.  A release has none, and is greater than its
prereleases; of two lists of identifiers a proper extension is the greater one. -/
def Version.prereleaseOrder : List Identifier → List Identifier → Ordering
  | [], [] => .eq
  | [], _ :: _ => .gt
  | _ :: _, [] => .lt
  | i :: is, j :: js => List.compareLex Identifier.order (i :: is) (j :: js)

/-- The three-way comparison of versions by precedence. -/
def Version.order (a b : Version) : Ordering :=
  ((Ord.compare a.major b.major).then
    ((Ord.compare a.minor b.minor).then (Ord.compare a.patch b.patch))).then
      (prereleaseOrder a.prerelease b.prerelease)

/-- The relation holds between two things that compare so. -/
def Relation.accepts : Relation → Ordering → Bool
  | .eq => Ordering.isEq
  | .ne => Ordering.isNe
  | .lt => Ordering.isLT
  | .le => Ordering.isLE
  | .gt => Ordering.isGT
  | .ge => Ordering.isGE

/-! ### Comparisons and linear orders -/

section Compares

variable {α β γ : Type} [LinearOrder α] [LinearOrder β] [LinearOrder γ]

/-- The standard comparison is that of the order. -/
theorem compares_ordCompare (a b : α) : (Ord.compare a b).Compares a b := by
  rw [← cmp_eq_compare]
  exact cmp_compares a b

/-- Where the first parts decide, and after them the second ones, the results are combined in
that order. -/
theorem compares_then {a a' : α} {b b' : β} {c c' : γ} {o o' : Ordering}
    (ho : o.Compares a a') (ho' : o'.Compares b b')
    (hlt : a < a' ∨ a = a' ∧ b < b' → c < c') (hgt : a' < a ∨ a' = a ∧ b' < b → c' < c)
    (heq : a = a' → b = b' → c = c') : (o.then o').Compares c c' := by
  cases o with
  | lt => exact hlt (.inl ho)
  | gt => exact hgt (.inl ho)
  | eq =>
    obtain rfl : a = a' := ho
    cases o' with
    | lt => exact hlt (.inr ⟨rfl, ho'⟩)
    | gt => exact hgt (.inr ⟨rfl, ho'⟩)
    | eq => exact heq rfl ho'

/-- Pairs are compared by their first parts, and after them by their second parts. -/
theorem compares_toLex {a a' : α} {b b' : β} {o o' : Ordering} (ho : o.Compares a a')
    (ho' : o'.Compares b b') : (o.then o').Compares (toLex (a, b)) (toLex (a', b')) := by
  refine compares_then ho ho' (fun h => ?_) (fun h => ?_) fun ha hb => by rw [ha, hb]
  · exact Prod.Lex.toLex_lt_toLex.2 h
  · exact Prod.Lex.toLex_lt_toLex.2 h

/-- Lists are compared element by element, through any function into an order. -/
theorem compares_compareLex {ι : Type} {f : ι → α} {c : ι → ι → Ordering}
    (hc : ∀ i j, (c i j).Compares (f i) (f j)) (is js : List ι) :
    (List.compareLex c is js).Compares (is.map f) (js.map f) := by
  induction is generalizing js with
  | nil =>
    cases js with
    | nil => rfl
    | cons j js => exact List.nil_lt_cons _ _
  | cons i is ih =>
    cases js with
    | nil => exact List.nil_lt_cons _ _
    | cons j js =>
      rw [List.compareLex_cons_cons]
      exact compares_then (hc i j) (ih js) List.cons_lt_cons_iff.2 List.cons_lt_cons_iff.2
        fun hhead htail => by rw [List.map_cons, List.map_cons, hhead, htail]

end Compares

/-! ### Precedence and ranks -/

/-- Texts are compared by their code points. -/
theorem compares_codePoints (s t : String) :
    (List.compareLex (compareOn Char.toNat) s.toList t.toList).Compares s t := by
  have htoNat : StrictMono Char.toNat := fun _ _ h => h
  have htoList : StrictMono String.toList := fun _ _ h => String.lt_iff.1 h
  have hchar : ∀ c d : Char, (compareOn Char.toNat c d).Compares (id c) (id d) := fun c d =>
    htoNat.compares.1 (compares_ordCompare c.toNat d.toNat)
  have hlist := compares_compareLex hchar s.toList t.toList
  rw [List.map_id, List.map_id] at hlist
  exact htoList.compares.1 hlist

/-- Identifiers are compared by their ranks. -/
theorem Identifier.compares_order (i j : Identifier) : (i.order j).Compares i.rank j.rank := by
  cases i with
  | num m =>
    cases j with
    | num n => exact Sum.Lex.inl_strictMono.compares.2 (compares_ordCompare m n)
    | alpha t => exact Sum.Lex.inl_lt_inr m t
  | alpha s =>
    cases j with
    | num n => exact Sum.Lex.inl_lt_inr n s
    | alpha t => exact Sum.Lex.inr_strictMono.compares.2 (compares_codePoints s t)

namespace Version

/-- The prerelease parts are compared by what they contribute to the ranks. -/
theorem compares_prereleaseOrder (a b : Version) :
    (prereleaseOrder a.prerelease b.prerelease).Compares a.tag b.tag := by
  rw [tag, tag, isPrerelease, isPrerelease]
  cases a.prerelease with
  | nil =>
    cases b.prerelease with
    | nil => rfl
    | cons j js => exact WithTop.coe_lt_top _
  | cons i is =>
    cases b.prerelease with
    | nil => exact WithTop.coe_lt_top _
    | cons j js =>
      exact WithTop.coe_strictMono.compares.2
        (compares_compareLex Identifier.compares_order (i :: is) (j :: js))

/-- The comparison by recursion is that of the ranks. -/
theorem compares_order (a b : Version) : (a.order b).Compares a.rank b.rank := by
  have htriple := compares_toLex (compares_ordCompare a.major b.major)
    (compares_toLex (compares_ordCompare a.minor b.minor) (compares_ordCompare a.patch b.patch))
  exact compares_toLex htriple (compares_prereleaseOrder a b)

/-- The comparison of versions is that of the ranks. -/
theorem compares_compare (a b : Version) : (a.compare b).Compares a.rank b.rank := by
  rw [compare]
  split
  · next h => exact (before_iff a b).1 h
  · next hab =>
    split
    · next h => exact (before_iff b a).1 h
    · next hba =>
      rw [before_iff] at hab hba
      exact le_antisymm (not_lt.1 hba) (not_lt.1 hab)

theorem compare_eq_order (a b : Version) : a.compare b = a.order b :=
  (compares_compare a b).inj (compares_order a b)

theorem compare_swap (a b : Version) : b.compare a = (a.compare b).swap :=
  (compares_compare b a).inj (compares_compare a b).swap

/-- Two versions compare as equal if they differ in build metadata at most. -/
theorem compare_eq_eq_iff (a b : Version) :
    a.compare b = .eq ↔ a.triple = b.triple ∧ a.prerelease = b.prerelease := by
  rw [(compares_compare a b).eq_eq, ← same_iff, same, decide_eq_true_iff]

end Version

/-! ### Relations -/

/-- A relation holds if and only if it accepts the result of the comparison. -/
theorem Relation.holds_eq_accepts (r : Relation) (a b : Version) :
    r.holds a b = r.accepts (a.compare b) := by
  have hbefore : a.before b = (a.compare b).isLT := by
    rw [Bool.eq_iff_iff, Version.before_iff, Ordering.isLT_iff_eq_lt,
      (a.compares_compare b).eq_lt]
  have hsame : a.same b = (a.compare b).isEq := by
    rw [Bool.eq_iff_iff, Version.same_iff, Ordering.isEq_iff_eq_eq, (a.compares_compare b).eq_eq]
  cases r <;> simp only [holds, accepts, hbefore, hsame] <;> cases a.compare b <;> rfl

/-- What an operator says is transitive. -/
theorem Op.Holds.trans {α : Type} [LinearOrder α] {o : Op} {a b c : α} (hab : o.Holds a b)
    (hbc : o.Holds b c) : o.Holds a c := by
  cases o with
  | eq => exact Eq.trans hab hbc
  | lt => exact lt_trans hab hbc
  | le => exact le_trans hab hbc
  | gt => exact lt_trans hbc hab
  | ge => exact le_trans hbc hab

/-- Of any two versions one is before the other, or they are the same; never two of these. -/
theorem Relation.existsUnique_holds (a b : Version) :
    ∃! r, r ∈ [Relation.lt, .eq, .gt] ∧ r.holds a b = true := by
  simp only [Relation.holds_eq_accepts]
  generalize a.compare b = o
  have hsome : ∃ r ∈ [Relation.lt, .eq, .gt], r.accepts o = true := by cases o <;> decide
  have honly : ∀ r ∈ [Relation.lt, .eq, .gt], ∀ s ∈ [Relation.lt, .eq, .gt],
      r.accepts o = true → s.accepts o = true → r = s := by cases o <;> decide
  obtain ⟨r, hr, hor⟩ := hsome
  exact ⟨r, ⟨hr, hor⟩, fun s hs => honly s hs.1 r hr hs.2 hor⟩

/-- **The comparison of versions is precedence.**  It is a total order up to build metadata, which
never matters: of any two versions exactly one relation holds of `<`, `==` and `>`, what the
operators say is transitive, and versions are equal if and only if their triples and their
prerelease parts are.  All relations, and all bounds, agree with the result of the comparison. -/
theorem Version.compare_laws :
    (∀ a b : Version, a.compare b = a.order b) ∧
    (∀ a b : Version, b.compare a = (a.compare b).swap) ∧
    (∀ a b : Version, ∃! r, r ∈ [Relation.lt, .eq, .gt] ∧ r.holds a b = true) ∧
    (∀ (o : Op) (a b c : Version), o.relation.holds a b = true → o.relation.holds b c = true →
      o.relation.holds a c = true) ∧
    (∀ a b : Version, a.compare b = .eq ↔ a.triple = b.triple ∧ a.prerelease = b.prerelease) ∧
    (∀ (a b : Version) (xs ys : List String),
      { a with build := xs }.compare { b with build := ys } = a.compare b) ∧
    (∀ (r : Relation) (a b : Version), r.holds a b = r.accepts (a.compare b)) ∧
    ∀ (o : Op) (a b : Version),
      Comparator.check ⟨some o, b⟩ a = .ok (o.relation.accepts (a.compare b)) := by
  refine ⟨compare_eq_order, compare_swap, Relation.existsUnique_holds, ?_, compare_eq_eq_iff,
    fun _ _ _ _ => rfl, Relation.holds_eq_accepts, ?_⟩
  · intro o a b c hab hbc
    rw [Op.holds_relation_iff] at hab hbc ⊢
    exact hab.trans hbc
  · intro o a b
    rw [← Relation.holds_eq_accepts]
    rfl

end SemverRange
