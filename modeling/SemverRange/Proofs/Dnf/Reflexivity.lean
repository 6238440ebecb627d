import SemverRange.Proofs.Dnf.Operators
import SemverRange.Proofs.Version.Notation

/-!
# A version and the formulas that it is the target of

A text that is read as a version can be put after an operator, or on both sides of a dash, and the
result is read as a formula with that version as its target.  White space is no obstacle, nor is the
letter in front.

Then the version satisfies its own formulas, except those of the two operators that exclude it.  It
is where its region begins; each ceiling that is made from its numbers lies strictly above it, even
if it is a prerelease or its numbers are zero; and if it is a prerelease, the formula asks for it,
being written with it.

## Main results

* `Version.parse_clause_compare`, `Version.parse_clause_shorthand`, `Version.parse_between` — the
  text of a version as part of a longer one.
* `Version.rank_mem_tildeRegion`, `Version.rank_mem_caretRegion` — the ceilings lie above.
* `Version.satisfies_self` — **which of its own formulas a version satisfies**.
-/

namespace SemverRange

open Set

/-! ### The text of a version as part of a longer one -/

namespace Grammar.Version

variable (d : Grammar.Version)

/-- The formula of one clause, which stands at the beginning of the text. -/
def clauseFormula (c : Clause) : Formula := .ranges ⟨[], by simp⟩ (.all c []) [] d.after

theorem text_clauseFormula (c : Clause) : (d.clauseFormula c).text = c.text ++ d.after.1 := by
  simp [clauseFormula, Formula.text, Range.text]

theorem numerals_clauseFormula {c : Clause} (hc : c.target = d.target) :
    (d.clauseFormula c).numerals = d.numerals := by
  simp [clauseFormula, Formula.numerals, Formula.targets, Range.targets, hc, numerals_target]

/-- The formula with the version at both ends, and a dash between two spaces. -/
def betweenFormula : Formula :=
  .ranges d.before
    (.between d.target
      ⟨d.after.1 ++ [' '], by simp,
        List.forall_mem_append.2 ⟨d.after.2, List.forall_mem_singleton.2 rfl⟩⟩
      ⟨' ' :: d.before.1, by simp, List.forall_mem_cons.2 ⟨rfl, d.before.2⟩⟩ d.target)
    [] d.after

theorem text_betweenFormula : d.betweenFormula.text = d.text ++ (" - ".toList ++ d.text) := by
  simp [betweenFormula, Formula.text, Range.text, text_eq]

end Grammar.Version

/-- A sign in front of the text of a version makes it a formula of one clause. -/
theorem Grammar.Version.parse_clause {d : Grammar.Version} {t : String} (htext : d.text = t.toList)
    (hshort : Short d.numerals) {sign : List Char} {c : Grammar.Clause}
    (hc : c.text = sign ++ (d.before.1 ++ d.target.text)) (htarget : c.target = d.target) :
    SemverRange.Formula.parse (String.ofList sign ++ t) = .ok c.denote.toFormula := by
  have hden : (d.clauseFormula c).denote = c.denote.toFormula := rfl
  rw [← hden]
  apply SemverRange.Formula.parse_eq_ok
  · rw [d.text_clauseFormula, hc, String.toList_append, String.toList_ofList, ← htext, d.text_eq]
    simp only [List.append_assoc]
  · rwa [d.numerals_clauseFormula htarget]

namespace Version

variable {t : String} {v : Version} (ht : Version.parse t = .ok v)
include ht

/-- After the sign of an operator a version is the target of a comparison. -/
theorem parse_clause_compare (o : Op) : Formula.parse (String.ofList o.sign ++ t) =
    .ok (Clause.compare (some o) (.version v)).toFormula := by
  obtain ⟨d, htext, hshort, rfl⟩ := exists_form_of_parse ht
  rw [← d.denote_target]
  exact Grammar.Version.parse_clause (c := .compare o d.before d.target) htext hshort rfl rfl

/-- After a tilde or a caret a version is its target. -/
theorem parse_clause_shorthand (s : Shorthand) : Formula.parse (String.ofList s.sign ++ t) =
    .ok (Clause.shorthand (some s) (.version v)).toFormula := by
  obtain ⟨d, htext, hshort, rfl⟩ := exists_form_of_parse ht
  rw [← d.denote_target]
  exact Grammar.Version.parse_clause (c := .shorthand s d.before d.target) htext hshort rfl rfl

/-- With a dash between two copies of its text a version is both ends of a range. -/
theorem parse_between : Formula.parse (t ++ " - " ++ t) =
    .ok ⟨[.between (.version v) (.version v)]⟩ := by
  obtain ⟨d, htext, hshort, rfl⟩ := exists_form_of_parse ht
  have hden : d.betweenFormula.denote =
      ⟨[.between (.version d.denote) (.version d.denote)]⟩ := by
    rw [← d.denote_target]
    rfl
  have hnumerals : d.betweenFormula.numerals = d.numerals ++ d.numerals := by
    rw [← d.numerals_target]
    simp [Grammar.Version.betweenFormula, Grammar.Formula.numerals, Grammar.Formula.targets,
      Grammar.Range.targets]
  rw [← hden]
  apply Formula.parse_eq_ok
  · rw [d.text_betweenFormula, String.toList_append, String.toList_append, htext, List.append_assoc]
  · rw [hnumerals]
    exact short_append.2 ⟨hshort, hshort⟩

end Version

/-! ### Ceilings -/

namespace Version

variable (v : Version)

/-- A release with a greater triple is above the version, whether that is a prerelease or not. -/
theorem rank_lt_releaseRank {a b c : ℕ}
    (h : v.major < a ∨ v.major = a ∧ (v.minor < b ∨ v.minor = b ∧ v.patch < c)) :
    v.rank < releaseRank a b c := by
  rw [releaseRank, rank, rank, Prod.Lex.toLex_lt_toLex]
  exact .inl ((lexTriple_lt_iff v (release a b c)).2 h)

/-- The next minor number is above the version. -/
theorem rank_mem_tildeRegion : v.rank ∈ (Target.version v).tildeRegion := by
  refine ⟨le_rfl, v.rank_lt_releaseRank ?_⟩
  omega

/-- Counting up the first number that is not zero, or the last one, leads above the version. -/
theorem rank_mem_caretRegion : v.rank ∈ (Target.version v).caretRegion := by
  refine ⟨le_rfl, ?_⟩
  split
  · next h =>
    apply v.rank_lt_releaseRank
    omega
  · split
    · next h =>
      apply v.rank_lt_releaseRank
      omega
    · apply v.rank_lt_releaseRank
      omega

end Version

/-! ### What a version satisfies -/

/-- A range that is written with a version admits it if its region has it. -/
theorem Range.admits_self_iff {r : Range} {v : Version} (h : .version v ∈ r.targets) :
    r.Admits v ↔ v.rank ∈ r.region :=
  ⟨fun hadmits => hadmits.2, fun hregion => ⟨fun hpre => ⟨v, h, hpre, rfl⟩, hregion⟩⟩

/-- A version satisfies a clause that it is the target of if the region of the clause has it. -/
theorem Clause.satisfies_target {c : Clause} (hc : c.Proper) {v : Version}
    (h : c.target = .version v) :
    ∃ b, c.toFormula.satisfies v = .ok b ∧ (b = true ↔ v.rank ∈ c.region) := by
  have htargets : .version v ∈ (Range.all [c]).targets := by
    rw [Range.targets, List.map_singleton, h]
    exact List.mem_singleton_self _
  obtain ⟨b, hb, hadmits⟩ := Range.satisfies_alone (.all (List.forall_mem_singleton.2 hc)) v
  refine ⟨b, hb, hadmits.trans ((Range.admits_self_iff htargets).trans ?_)⟩
  simp [Range.region]

/-- What a version satisfies of a text and its own. -/
theorem satisfies_eq_of_parse {formula text : String} {f : Formula} {v : Version}
    (hf : Formula.parse formula = .ok f) (hv : Version.parse text = .ok v) :
    satisfies formula text = f.satisfies v := by
  rw [satisfies, hf, hv]
  rfl

namespace Version

section Text

variable {t : String} {v : Version} (ht : Version.parse t = .ok v)
include ht

/-- If a formula is a clause with the version as its target, the region of the clause decides. -/
theorem satisfies_clause {formula : String} {c : Clause}
    (hparse : Formula.parse formula = .ok c.toFormula) (hc : c.Proper)
    (htarget : c.target = .version v) {b : Bool} (hregion : b = true ↔ v.rank ∈ c.region) :
    satisfies formula t = .ok b := by
  obtain ⟨b', hb', hiff⟩ := Clause.satisfies_target hc htarget
  have heq : b' = b := by rw [Bool.eq_iff_iff, hiff, hregion]
  rw [satisfies_eq_of_parse hparse ht, hb', heq]

/-- A comparison of a version with itself. -/
theorem satisfies_compare (o : Op) {b : Bool} (hb : b = true ↔ o.Holds v.rank v.rank) :
    satisfies (String.ofList o.sign ++ t) t = .ok b :=
  satisfies_clause ht (parse_clause_compare ht o) (.compare o (.version v)) rfl hb

theorem satisfies_between : satisfies (t ++ " - " ++ t) t = .ok true := by
  obtain ⟨b, hb, hadmits⟩ := Range.satisfies_alone (.between (.version v) (.version v)) v
  have htargets : .version v ∈ (Range.between (.version v) (.version v)).targets :=
    List.mem_cons_self
  have hregion : v.rank ∈ (Range.between (.version v) (.version v)).region :=
    ⟨le_refl v.rank, le_refl v.rank⟩
  obtain rfl : b = true := hadmits.2 ((Range.admits_self_iff htargets).2 hregion)
  rw [satisfies_eq_of_parse (parse_between ht) ht, hb]

/-- **A version satisfies its own formulas.**  Every text that is read as a version satisfies
itself: alone, after `=`, `>=`, `<=`, a tilde or a caret, and on both sides of a dash.  It does not
satisfy itself after `<` or `>`.  In no case is there an error. -/
theorem satisfies_self :
    (∀ p ∈ ["", "=", ">=", "<=", "~", "^"], satisfies (p ++ t) t = .ok true) ∧
    satisfies (t ++ " - " ++ t) t = .ok true ∧
    satisfies ("<" ++ t) t = .ok false ∧ satisfies (">" ++ t) t = .ok false := by
  refine ⟨?_, satisfies_between ht, ?_, ?_⟩
  · simp only [List.forall_mem_cons]
    refine ⟨?_, ?_, ?_, ?_, ?_, ?_, List.forall_mem_nil _⟩
    · rw [String.empty_append]
      exact satisfies_clause ht (parse_eq_ok_iff_formula.1 ht) (.bare (.version v)) rfl
        (iff_of_true rfl rfl)
    · exact satisfies_compare ht .eq (iff_of_true rfl rfl)
    · exact satisfies_compare ht .ge (iff_of_true rfl le_rfl)
    · exact satisfies_compare ht .le (iff_of_true rfl le_rfl)
    · exact satisfies_clause ht (parse_clause_shorthand ht .tilde) (.shorthand .tilde (.version v))
        rfl (iff_of_true rfl v.rank_mem_tildeRegion)
    · exact satisfies_clause ht (parse_clause_shorthand ht .caret) (.shorthand .caret (.version v))
        rfl (iff_of_true rfl v.rank_mem_caretRegion)
  · exact satisfies_compare ht .lt (iff_of_false Bool.false_ne_true (lt_irrefl v.rank))
  · exact satisfies_compare ht .gt (iff_of_false Bool.false_ne_true (lt_irrefl v.rank))

end Text

/-- A prerelease of `0.0.0` with all that may stand in a text. -/
theorem satisfies_self_zero :
    Version.parse " v0.0.0-a.07+b " = .ok ⟨0, 0, 0, [.alpha "a", .num 7], ["b"]⟩ ∧
    (∀ p ∈ ["", "=", ">=", "<=", "~", "^"],
      satisfies (p ++ " v0.0.0-a.07+b ") " v0.0.0-a.07+b " = .ok true) ∧
    satisfies (" v0.0.0-a.07+b " ++ " - " ++ " v0.0.0-a.07+b ") " v0.0.0-a.07+b " = .ok true ∧
    satisfies ("<" ++ " v0.0.0-a.07+b ") " v0.0.0-a.07+b " = .ok false ∧
    satisfies (">" ++ " v0.0.0-a.07+b ") " v0.0.0-a.07+b " = .ok false := by
  have hparse : Version.parse " v0.0.0-a.07+b " =
      .ok ⟨0, 0, 0, [.alpha "a", .num 7], ["b"]⟩ := by decide +kernel
  exact ⟨hparse, satisfies_self hparse⟩

end Version

end SemverRange
