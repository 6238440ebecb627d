import Mathlib.Data.List.Basic
import SemverRange.Formula.Parser
import SemverRange.Proofs.Formula.Lexing

/-!
# Reading the tokens of a derivation

The tokens of a derivation are read as what the derivation denotes, if none of its numerals is
too long and if what follows does not go on with it.  A target goes on with a dot, a prerelease
or build metadata, a range with white space or a dash.

## Main definitions

* `Short` — numerals that are not too long.
* `EndsTarget ls`, `EndsRange ls` — the tokens `ls` do not go on with a target, a range.
* `Reads read ls a rest` — whatever the places of the tokens, `read` makes `a` of tokens that
  look like `ls`, and leaves tokens that look like `rest`.

## Main results

* `Read.part_eq_ok_iff`, `Read.identifiers_eq_ok_iff` — when a part and a list of identifiers
  are read, and as what.
* `Grammar.Formula.reads` — the tokens of a derivation are read as what it denotes.
-/

namespace SemverRange

/-- No numeral is too long to be read. -/
def Short (numerals : List (List Char)) : Prop := ∀ ds ∈ numerals, ds.length ≤ Numeral.limit

@[simp] theorem short_nil : Short [] := by
  intro ds hds
  cases hds

@[simp] theorem short_append {ms ns : List (List Char)} :
    Short (ms ++ ns) ↔ Short ms ∧ Short ns := List.forall_mem_append

@[simp] theorem short_flatMap {α : Type} {as : List α} {f : α → List (List Char)} :
    Short (as.flatMap f) ↔ ∀ a ∈ as, Short (f a) := by
  unfold Short
  rw [List.forall_mem_flatMap]

/-! ### Numbers and identifiers -/

namespace Grammar

/-- What reading makes of a part. -/
def Part.denote : Part → SemverRange.Part
  | number ds => .number ds.value
  | wildcard _ => .wildcard

@[simp] theorem Part.number?_denote (p : Part) : p.denote.number? = p.value? := by
  cases p <;> rfl

theorem filterMap_denote (ps : List Part) :
    (ps.map Part.denote).filterMap SemverRange.Part.number? = ps.filterMap Part.value? := by
  rw [List.filterMap_map]
  exact congrArg (List.filterMap · ps) (funext Part.number?_denote)

theorem length_filterMap_value?_iff (ps : List Part) :
    (ps.filterMap Part.value?).length = ps.length ↔ ∀ p ∈ ps, p.IsNumber := by
  rw [List.filterMap_length_eq_length]
  refine forall₂_congr fun p _ => ?_
  cases p <;> simp

/-- A number comes after a wildcard in none of the lists that derivations allow. -/
theorem numberAfterWildcard_map_denote (ps : List Part) :
    SemverRange.Part.numberAfterWildcard (ps.map Part.denote) = false ↔
      ps.Pairwise fun p q => q.IsNumber → p.IsNumber := by
  induction ps with
  | nil => simp [SemverRange.Part.numberAfterWildcard]
  | cons p ps ih =>
    rw [List.pairwise_cons, ← ih]
    cases p with
    | number ds => simp [SemverRange.Part.numberAfterWildcard, Part.denote]
    | wildcard c =>
      -- after a wildcard there is no number at all, so nothing else is asked of the rest
      have hnone : SemverRange.Part.numberAfterWildcard ((.wildcard c :: ps).map Part.denote) =
          false ↔ ∀ q ∈ ps, ¬ q.IsNumber := by
        have hany : SemverRange.Part.numberAfterWildcard ((.wildcard c :: ps).map Part.denote) =
            (ps.map Part.denote).any (· ≠ .wildcard) := rfl
        rw [hany, List.any_map, List.any_eq_false]
        refine forall₂_congr fun q _ => ?_
        cases q <;> simp [Part.denote]
      have hrest : (∀ q ∈ ps, ¬ q.IsNumber) → ps.Pairwise fun p q => q.IsNumber → p.IsNumber :=
        fun h => List.pairwise_of_forall_mem_list fun p _ q hq hnum => absurd hnum (h q hq)
      rw [hnone, ih]
      exact ⟨fun h => ⟨h, hrest h⟩, And.left⟩

end Grammar

theorem bind_eq_ok_iff {ε α β : Type} {x : Except ε α} {f : α → Except ε β} {b : β} :
    x >>= f = .ok b ↔ ∃ a, x = .ok a ∧ f a = .ok b := by
  refine ⟨bind_eq_ok, ?_⟩
  rintro ⟨a, rfl, h⟩
  exact h

namespace Read

theorem numeral_eq_ok_iff {ds : List Char} {n : ℕ} :
    numeral ds = .ok n ↔ Nat.ofDigitChars 10 ds 0 = n ∧ ds.length ≤ Numeral.limit := by
  unfold numeral Numeral.read
  split
  · next h => simp [Except.mapError, h]
  · next h => simp [Except.mapError, h]

/-- When an identifier is read, and as what. -/
theorem identifier_eq_ok_iff {i : Grammar.Ident} {x : Identifier} :
    identifier i.1 = .ok x ↔ i.denote = x ∧
      (i.1.all Char.isDigit = true → i.1.length ≤ Numeral.limit) := by
  unfold identifier Grammar.Ident.denote
  split
  · next h =>
    simp only [bind_eq_ok_iff, numeral_eq_ok_iff, h, forall_const]
    constructor
    · rintro ⟨n, ⟨rfl, hlen⟩, ⟨⟩⟩
      exact ⟨rfl, hlen⟩
    · rintro ⟨rfl, hlen⟩
      exact ⟨_, ⟨rfl, hlen⟩, rfl⟩
  · next h => simp [h, pure, Except.pure]

/-- When identifiers are read, and as what. -/
theorem identifiers_eq_ok_iff {is : List Grammar.Ident} {xs : List Identifier} :
    (is.map Subtype.val).mapM identifier = .ok xs ↔ is.map Grammar.Ident.denote = xs ∧
      Short ((is.map Subtype.val).filter fun i => i.all Char.isDigit) := by
  induction is generalizing xs with
  | nil => simp [pure, Except.pure]
  | cons i is ih =>
    simp only [List.map_cons, List.mapM_cons, bind_eq_ok_iff, identifier_eq_ok_iff, ih]
    have hshort : Short ((i.1 :: is.map Subtype.val).filter fun i => i.all Char.isDigit) ↔
        (i.1.all Char.isDigit = true → i.1.length ≤ Numeral.limit) ∧
          Short ((is.map Subtype.val).filter fun i => i.all Char.isDigit) := by
      unfold Short
      simp only [List.mem_filter, List.mem_cons, and_imp, forall_eq_or_imp]
    rw [hshort]
    constructor
    · rintro ⟨x, ⟨rfl, hi⟩, xs, ⟨rfl, his⟩, ⟨⟩⟩
      exact ⟨rfl, hi, his⟩
    · rintro ⟨rfl, hi, his⟩
      exact ⟨_, ⟨rfl, hi⟩, _, ⟨rfl, his⟩, rfl⟩

/-- When a part is read, and as what. -/
theorem part_eq_ok_iff {p : Grammar.Part} {pos : ℕ} {ts : List Token}
    {x : (Part × Token) × List Token} :
    part (⟨p.lexeme, pos⟩ :: ts) = .ok x ↔ ((p.denote, ⟨p.lexeme, pos⟩), ts) = x ∧
      Short p.digits?.toList := by
  cases p with
  | number ds =>
    simp only [part, Grammar.Part.lexeme, bind_eq_ok_iff, numeral_eq_ok_iff]
    constructor
    · rintro ⟨n, ⟨rfl, hlen⟩, ⟨⟩⟩
      exact ⟨rfl, by simpa [Short] using hlen⟩
    · rintro ⟨rfl, hlen⟩
      exact ⟨_, ⟨rfl, by simpa [Short] using hlen⟩, rfl⟩
  | wildcard c =>
    simp [part, Grammar.Part.lexeme, Grammar.Part.denote, pure, Except.pure]

end Read

/-! ### Targets -/

/-- The token stands between two targets or clauses. -/
def Lexeme.isSeparator : Lexeme → Bool
  | or _ | and _ | dash _ => true
  | _ => false

/-- Nothing continues the target that is before the tokens. -/
def EndsTarget (ls : List Lexeme) : Prop := ∀ l ∈ ls.head?, l.isSeparator = true

/-- Whatever the places of the tokens, the function makes `a` of tokens that look like `ls`, and
leaves tokens that look like `rest`. -/
def Reads {α : Type} (read : List Token → Except Stop (α × List Token)) (ls : List Lexeme)
    (a : α) (rest : List Lexeme) : Prop :=
  ∀ ts : List Token, ts.map Token.lexeme = ls →
    ∃ ts', read ts = .ok (a, ts') ∧ ts'.map Token.lexeme = rest

namespace Read

theorem ofParts?_natCast {pre : List Identifier} {build : List String}
    (hpre : .alpha "" ∉ pre) (hbuild : "" ∉ build) (major minor patch : ℕ) :
    Version.ofParts? major minor patch pre build = .ok ⟨major, minor, patch, pre, build⟩ := by
  rw [Version.ofParts?, if_neg (by omega), if_neg (by simp [hpre, hbuild])]
  rfl

/-- Fewer than three numbers make a pattern, if nothing is attached to them. -/
theorem finish_of_length_ne {ps : List SemverRange.Part} {last : Token} {ts : List Token}
    (hord : Part.numberAfterWildcard ps = false) (hlen : (ps.filterMap Part.number?).length ≠ 3) :
    finish ps last ts =
      if startsAttached ts then throw (.misplaced ts.head? .attachedToPartial)
      else pure (.ofNumbers (ps.filterMap Part.number?), ts) := by
  rw [finish, if_neg (Bool.eq_false_iff.1 hord)]
  split
  · next h =>
    rw [h] at hlen
    exact absurd rfl hlen
  · rfl

theorem startsAttached_eq_false {ts : List Token} (h : EndsTarget (ts.map Token.lexeme)) :
    startsAttached ts = false := by
  unfold startsAttached
  split
  · exact absurd (h _ rfl) Bool.false_ne_true
  · exact absurd (h _ rfl) Bool.false_ne_true
  · rfl

end Read

namespace Grammar

section Attached

variable {ts : List Token} {ls : List Lexeme}

theorem exists_prerelease (pre : Option Idents)
    (hshort : Short (pre.elim [] fun is =>
      (is.1.map Subtype.val).filter fun i => i.all Char.isDigit))
    (hls : ∀ l ∈ ls.head?, ∀ ids, l ≠ .prerelease ids)
    (hts : ts.map Token.lexeme =
      (pre.elim [] fun is => [.prerelease (is.1.map Subtype.val)]) ++ ls) :
    ∃ rest, Read.prerelease ts = .ok (pre.elim [] fun is => is.1.map Ident.denote, rest) ∧
      rest.map Token.lexeme = ls := by
  cases pre with
  | none =>
    refine ⟨ts, ?_, hts⟩
    unfold Read.prerelease
    split
    · next ids pos ts' =>
      subst hts
      exact absurd rfl (hls _ rfl ids)
    · rfl
  | some is =>
    obtain ⟨⟨l, pos⟩, rest, rfl, rfl, hrest⟩ := List.map_eq_cons_iff.1 hts
    refine ⟨rest, ?_, hrest⟩
    simp only [Read.prerelease, Read.identifiers_eq_ok_iff.2 ⟨rfl, hshort⟩]
    rfl

theorem exists_build (build : Option Idents) (hls : EndsTarget ls)
    (hts : ts.map Token.lexeme =
      (build.elim [] fun is => [.build (is.1.map Subtype.val)]) ++ ls) :
    ∃ rest, Read.build ts = (build.elim [] fun is => is.1.map fun i => String.ofList i.1, rest) ∧
      rest.map Token.lexeme = ls := by
  cases build with
  | none =>
    refine ⟨ts, ?_, hts⟩
    unfold Read.build
    split
    · subst hts
      exact absurd (hls _ rfl) Bool.false_ne_true
    · rfl
  | some is =>
    obtain ⟨⟨l, pos⟩, rest, rfl, rfl, hrest⟩ := List.map_eq_cons_iff.1 hts
    refine ⟨rest, ?_, hrest⟩
    simp [Read.build]

end Attached

/-- No identifier is empty, so every one can stand in a version. -/
theorem alpha_empty_notMem (pre : Option Idents) :
    .alpha "" ∉ pre.elim [] fun is => is.1.map Ident.denote := by
  cases pre with
  | none => simp
  | some is =>
    rintro hmem
    obtain ⟨i, -, hi⟩ := List.mem_map.1 hmem
    unfold Ident.denote at hi
    split at hi
    · cases hi
    · exact i.2.1 (String.ofList_eq_empty_iff.1 (Identifier.alpha.inj hi))

theorem empty_notMem (build : Option Idents) :
    "" ∉ build.elim [] fun is => is.1.map fun i => String.ofList i.1 := by
  cases build with
  | none => simp
  | some is =>
    rintro hmem
    obtain ⟨i, -, hi⟩ := List.mem_map.1 hmem
    exact i.2.1 (String.ofList_eq_empty_iff.1 hi)

section Parts

variable {ls : List Lexeme}

theorem exists_part {p : Part} (hshort : Short p.digits?.toList) {ts : List Token}
    (hts : ts.map Token.lexeme = p.lexeme :: ls) :
    ∃ last rest, Read.part ts = .ok ((p.denote, last), rest) ∧ rest.map Token.lexeme = ls := by
  obtain ⟨⟨l, pos⟩, rest, rfl, rfl, hrest⟩ := List.map_eq_cons_iff.1 hts
  exact ⟨_, rest, Read.part_eq_ok_iff.2 ⟨rfl, hshort⟩, hrest⟩

/-- Further parts, no more than there may be. -/
theorem exists_parts (hls : ∀ l ∈ ls.head?, l ≠ .dot) {more : List Part}
    (hshort : ∀ p ∈ more, Short p.digits?.toList) {n : ℕ} (hn : more.length ≤ n) (last : Token)
    {ts : List Token}
    (hts : ts.map Token.lexeme = more.flatMap (fun p => [.dot, p.lexeme]) ++ ls) :
    ∃ last' rest, Read.parts n last ts = .ok ((more.map Part.denote, last'), rest) ∧
      rest.map Token.lexeme = ls := by
  induction more generalizing n last ts with
  | nil =>
    refine ⟨last, ts, ?_, hts⟩
    cases n with
    | zero =>
      rw [Read.parts]
      · rfl
      · rintro _ _ _ ⟨⟩
    | succ n =>
      cases ts with
      | nil => rfl
      | cons t ts =>
        subst hts
        rw [Read.parts, if_neg (hls _ rfl)]
        rfl
  | cons p more ih =>
    obtain ⟨n, rfl⟩ : ∃ m, n = m + 1 := Nat.exists_eq_add_one.2 (Nat.lt_of_lt_of_le (by simp) hn)
    obtain ⟨⟨l, pos⟩, ts', rfl, rfl, hts'⟩ := List.map_eq_cons_iff.1 hts
    obtain ⟨last₁, rest₁, hpart, hrest₁⟩ := exists_part (hshort p List.mem_cons_self) hts'
    obtain ⟨last₂, rest, hparts, hrest⟩ := ih (fun q hq => hshort q (List.mem_cons_of_mem p hq))
      (Nat.le_of_succ_le_succ hn) last₁ hrest₁
    refine ⟨last₂, rest, ?_, hrest⟩
    rw [Read.parts, if_pos rfl, hpart]
    simp only [bind, Except.bind, hparts]
    rfl

end Parts

namespace Target

variable (t : Target)

/-- Only three numbers have something attached to them. -/
theorem length_of_attached (h : t.pre.isSome ∨ t.build.isSome) :
    ((t.first :: t.more).filterMap Part.value?).length = 3 := by
  obtain ⟨hlen, hnum⟩ := t.attached h
  rw [(length_filterMap_value?_iff _).2 hnum, List.length_cons, hlen]

/-- Fewer than three numbers are a pattern. -/
theorem denote_of_length_ne (h : ((t.first :: t.more).filterMap Part.value?).length ≠ 3) :
    t.denote = .ofNumbers ((t.first :: t.more).filterMap Part.value?) := by
  have hle : ((t.first :: t.more).filterMap Part.value?).length ≤ 3 :=
    Nat.le_trans (List.length_filterMap_le ..) (Nat.succ_le_succ t.length_more)
  unfold denote
  generalize (t.first :: t.more).filterMap Part.value? = ns at *
  match ns with
  | [] | [_] | [_, _] => rfl
  | [_, _, _] => exact absurd rfl h
  | _ :: _ :: _ :: _ :: ns => simp only [List.length_cons] at hle; omega

theorem head?_build_ne_prerelease {ls : List Lexeme} (hls : EndsTarget ls) :
    ∀ l ∈ ((t.build.elim [] fun is => [Lexeme.build (is.1.map Subtype.val)]) ++ ls).head?,
      ∀ ids, l ≠ .prerelease ids := by
  cases t.build with
  | none =>
    rintro l hl ids rfl
    exact absurd (hls _ hl) Bool.false_ne_true
  | some is => rintro l ⟨⟩ ids ⟨⟩

theorem exists_finish {ts : List Token} {ls : List Lexeme} (hshort : Short t.numerals)
    (hls : EndsTarget ls) (hts : ts.map Token.lexeme = t.attachedLexemes ++ ls) (last : Token) :
    ∃ rest, Read.finish ((t.first :: t.more).map Part.denote) last ts = .ok (t.denote, rest) ∧
      rest.map Token.lexeme = ls := by
  have hord := (numberAfterWildcard_map_denote _).2 t.ordered
  by_cases hlen : ((t.first :: t.more).filterMap Part.value?).length = 3
  · -- after three numbers the prerelease and the build metadata are read, if they are there
    obtain ⟨major, minor, patch, hns⟩ := List.length_eq_three.1 hlen
    rw [attachedLexemes, List.append_assoc] at hts
    obtain ⟨ts', hpre, hts'⟩ := exists_prerelease t.pre (short_append.1 hshort).2
      (t.head?_build_ne_prerelease hls) hts
    obtain ⟨rest, hbuild, hrest⟩ := exists_build t.build hls hts'
    refine ⟨rest, ?_, hrest⟩
    have hv := Read.ofParts?_natCast (alpha_empty_notMem t.pre) (empty_notMem t.build)
      major minor patch
    rw [Read.finish, if_neg (Bool.eq_false_iff.1 hord), filterMap_denote, hns, denote, hns]
    simp only [hpre, bind, Except.bind, hbuild, hv]
    rfl
  · -- after fewer numbers the derivation has neither, and neither is accepted
    have hnone : t.attachedLexemes = [] := by
      have hpre : t.pre = none :=
        Option.not_isSome_iff_eq_none.1 fun h => hlen (t.length_of_attached (.inl h))
      have hbuild : t.build = none :=
        Option.not_isSome_iff_eq_none.1 fun h => hlen (t.length_of_attached (.inr h))
      rw [attachedLexemes, hpre, hbuild]
      rfl
    rw [hnone, List.nil_append] at hts
    subst hts
    refine ⟨ts, ?_, rfl⟩
    rw [Read.finish_of_length_ne hord (by rwa [filterMap_denote]),
      Read.startsAttached_eq_false hls, filterMap_denote, t.denote_of_length_ne hlen]
    rfl

/-- The letter before the first part is passed over. -/
theorem map_skipV {ts : List Token} {ls : List Lexeme}
    (hts : ts.map Token.lexeme = (t.vee.elim [] fun c => [.v c.1]) ++ t.first.lexeme :: ls) :
    (Read.skipV ts).map Token.lexeme = t.first.lexeme :: ls := by
  cases hv : t.vee with
  | some c =>
    rw [hv] at hts
    obtain ⟨⟨l, pos⟩, ts', rfl, rfl, hts'⟩ := List.map_eq_cons_iff.1 hts
    exact hts'
  | none =>
    rw [hv] at hts
    obtain ⟨⟨l, pos⟩, ts', rfl, hl, hts'⟩ := List.map_eq_cons_iff.1 hts
    obtain rfl : l = t.first.lexeme := hl
    have hskip : Read.skipV (⟨t.first.lexeme, pos⟩ :: ts') = ⟨t.first.lexeme, pos⟩ :: ts' := by
      cases t.first <;> rfl
    rw [hskip]
    exact hts

theorem head?_attachedLexemes_ne_dot {ls : List Lexeme} (hls : EndsTarget ls) :
    ∀ l ∈ (t.attachedLexemes ++ ls).head?, l ≠ .dot := by
  unfold attachedLexemes
  cases t.pre with
  | some is => rintro l ⟨⟩ ⟨⟩
  | none =>
    cases t.build with
    | some is => rintro l ⟨⟩ ⟨⟩
    | none =>
      rintro l hl rfl
      exact absurd (hls _ hl) Bool.false_ne_true

/-- **The tokens of a target are read as what it denotes.** -/
theorem reads {ls : List Lexeme} (hshort : Short t.numerals) (hls : EndsTarget ls) :
    Reads Read.target (t.lexemes ++ ls) t.denote ls := by
  intro ts hts
  have hparts : ∀ p ∈ t.first :: t.more, Short p.digits?.toList := by
    intro p hp ds hds
    exact (short_append.1 hshort).1 ds (List.mem_filterMap.2 ⟨p, hp, Option.mem_toList.1 hds⟩)
  rw [lexemes, List.append_assoc, List.cons_append, List.append_assoc] at hts
  obtain ⟨last, ts₁, hfirst, hts₁⟩ :=
    exists_part (hparts t.first List.mem_cons_self) (t.map_skipV hts)
  obtain ⟨last', ts₂, hmore, hts₂⟩ := exists_parts (t.head?_attachedLexemes_ne_dot hls)
    (fun p hp => hparts p (List.mem_cons_of_mem t.first hp)) t.length_more last hts₁
  obtain ⟨rest, hfinish, hrest⟩ := t.exists_finish hshort hls hts₂ last'
  refine ⟨rest, ?_, hrest⟩
  rw [List.map_cons] at hfinish
  simp only [Read.target, hfirst, bind, Except.bind, hmore, hfinish]

end Target

/-! ### Clauses -/

theorem Target.head?_lexemes (t : Target) (ls : List Lexeme) :
    ∀ l ∈ (t.lexemes ++ ls).head?, (∀ o, l ≠ .op o) ∧ ∀ s, l ≠ .shorthand s := by
  unfold lexemes
  cases t.vee with
  | some c =>
    rintro l ⟨⟩
    exact ⟨nofun, nofun⟩
  | none =>
    cases t.first <;>
      · rintro l ⟨⟩
        exact ⟨nofun, nofun⟩

end Grammar

section Bare

variable {ts : List Token}
  (h : ∀ l ∈ (ts.map Token.lexeme).head?, (∀ o, l ≠ .op o) ∧ ∀ s, l ≠ .shorthand s)
include h

theorem Read.clause_of_target {t : Target} {rest : List Token} (ht : target ts = .ok (t, rest)) :
    clause ts = .ok (.bare t, rest) := by
  rw [clause, ht]
  · rfl
  · rintro o pos ts' rfl
    exact (h _ rfl).1 o rfl
  · rintro s pos ts' rfl
    exact (h _ rfl).2 s rfl

theorem Read.startsOperator_eq_false : startsOperator ts = false := by
  unfold startsOperator
  split
  · exact absurd rfl ((h _ rfl).1 _)
  · exact absurd rfl ((h _ rfl).2 _)
  · rfl

end Bare

theorem Read.rangeAfter_of_clauses {t : Target} {ts rest : List Token} {cs : List Clause}
    (h : ∀ l ∈ (ts.map Token.lexeme).head?, ∀ b, l ≠ .dash b) (hcs : clauses ts = .ok (cs, rest)) :
    rangeAfter t ts = .ok (.all (.bare t :: cs), rest) := by
  rw [rangeAfter, hcs]
  · rfl
  · rintro b pos ts' rfl
    exact h _ rfl b rfl

namespace Grammar

theorem Clause.reads (c : Clause) {ls : List Lexeme} (hshort : Short c.target.numerals)
    (hls : EndsTarget ls) : Reads Read.clause (c.lexemes ++ ls) c.denote ls := by
  intro ts hts
  cases c with
  | bare t =>
    obtain ⟨rest, ht, hrest⟩ := t.reads hshort hls ts hts
    exact ⟨rest, Read.clause_of_target (hts ▸ t.head?_lexemes ls) ht, hrest⟩
  | compare o b t =>
    obtain ⟨⟨l, pos⟩, ts', rfl, rfl, hts'⟩ := List.map_eq_cons_iff.1 hts
    obtain ⟨rest, ht, hrest⟩ := t.reads hshort hls ts' hts'
    exact ⟨rest, by rw [Read.clause, ht]; rfl, hrest⟩
  | shorthand s b t =>
    obtain ⟨⟨l, pos⟩, ts', rfl, rfl, hts'⟩ := List.map_eq_cons_iff.1 hts
    obtain ⟨rest, ht, hrest⟩ := t.reads hshort hls ts' hts'
    exact ⟨rest, by rw [Read.clause, ht]; rfl, hrest⟩

/-! ### Ranges -/

end Grammar

theorem Read.clauses_and (b : List Char) (pos : ℕ) (ts : List Token) :
    clauses (⟨.and b, pos⟩ :: ts) =
      clause ts >>= fun x => clauses x.2 >>= fun y => .ok (x.1 :: y.1, y.2) := by
  rw [clauses]
  split
  · next e he => rw [he]; rfl
  · next c rest hc => rw [hc]; rfl

namespace Grammar

/-- Nothing continues the range that is before the tokens. -/
def EndsRange (ls : List Lexeme) : Prop := ∀ l ∈ ls.head?, ∃ cs, l = .or cs

theorem EndsRange.endsTarget {ls : List Lexeme} (h : EndsRange ls) : EndsTarget ls := by
  intro l hl
  obtain ⟨cs, rfl⟩ := h l hl
  rfl

section Clauses

variable {ls : List Lexeme} (hls : EndsRange ls)
include hls

theorem endsTarget_clauses (more : List (Gap × Clause)) :
    EndsTarget (more.flatMap (fun m => .and m.1.1 :: m.2.lexemes) ++ ls) := by
  cases more with
  | nil => exact hls.endsTarget
  | cons m more =>
    rintro l ⟨⟩
    rfl

theorem head?_clauses_ne_dash (more : List (Gap × Clause)) :
    ∀ l ∈ (more.flatMap (fun m => .and m.1.1 :: m.2.lexemes) ++ ls).head?,
      ∀ cs, l ≠ .dash cs := by
  cases more with
  | nil =>
    rintro l hl cs rfl
    obtain ⟨ds, hds⟩ := hls _ hl
    cases hds
  | cons m more => rintro l ⟨⟩ cs ⟨⟩

/-- Further clauses, up to the end of the range. -/
theorem reads_clauses {more : List (Gap × Clause)}
    (hshort : ∀ m ∈ more, Short m.2.target.numerals) :
    Reads Read.clauses (more.flatMap (fun m => .and m.1.1 :: m.2.lexemes) ++ ls)
      (more.map fun m => m.2.denote) ls := by
  induction more with
  | nil =>
    intro ts hts
    refine ⟨ts, ?_, hts⟩
    rw [Read.clauses]
    · rfl
    · rintro b pos ts' rfl
      subst hts
      obtain ⟨cs, hcs⟩ := hls _ rfl
      cases hcs
  | cons m more ih =>
    intro ts hts
    rw [List.flatMap_cons, List.append_assoc] at hts
    obtain ⟨⟨l, pos⟩, ts₁, rfl, rfl, hts₁⟩ := List.map_eq_cons_iff.1 hts
    obtain ⟨ts₂, hc, hts₂⟩ := m.2.reads (hshort m List.mem_cons_self)
      (endsTarget_clauses hls more) ts₁ hts₁
    obtain ⟨rest, hcs, hrest⟩ := ih (fun k hk => hshort k (List.mem_cons_of_mem m hk)) ts₂ hts₂
    refine ⟨rest, ?_, hrest⟩
    rw [Read.clauses_and, hc]
    simp only [bind, Except.bind, hcs]
    rfl

end Clauses

theorem Range.reads (r : Range) {ls : List Lexeme}
    (hshort : ∀ t ∈ r.targets, Short t.numerals) (hls : EndsRange ls) :
    Reads Read.range (r.lexemes ++ ls) r.denote ls := by
  intro ts hts
  cases r with
  | all c more =>
    rw [lexemes, List.append_assoc] at hts
    have hc : Short c.target.numerals := hshort _ List.mem_cons_self
    have hmore : ∀ m ∈ more, Short m.2.target.numerals := fun m hm =>
      hshort _ (List.mem_cons_of_mem _ (List.mem_map_of_mem hm))
    have hends := endsTarget_clauses hls more
    -- a range that starts with an operator is read clause by clause, any other after its target
    have hop : Read.startsOperator ts = true → ∃ rest,
        Read.range ts = .ok ((Range.all c more).denote, rest) ∧ rest.map Token.lexeme = ls := by
      intro hstart
      obtain ⟨ts₁, hc, hts₁⟩ := c.reads hc hends ts hts
      obtain ⟨rest, hcs, hrest⟩ := reads_clauses hls hmore ts₁ hts₁
      refine ⟨rest, ?_, hrest⟩
      rw [Read.range, hstart]
      simp only [if_true, hc, bind, Except.bind, hcs]
      rfl
    cases c with
    | bare t =>
      obtain ⟨ts₁, ht, hts₁⟩ := t.reads hc hends ts hts
      obtain ⟨rest, hcs, hrest⟩ := reads_clauses hls hmore ts₁ hts₁
      refine ⟨rest, ?_, hrest⟩
      have hafter := Read.rangeAfter_of_clauses (t := t.denote)
        (hts₁ ▸ head?_clauses_ne_dash hls more) hcs
      rw [Read.range, Read.startsOperator_eq_false (hts ▸ t.head?_lexemes _)]
      simp only [Bool.false_eq_true, if_false, ht, bind, Except.bind, hafter]
      rfl
    | compare o b t =>
      obtain ⟨⟨k, pos⟩, ts', rfl, rfl, -⟩ := List.map_eq_cons_iff.1 hts
      exact hop rfl
    | shorthand s b t =>
      obtain ⟨⟨k, pos⟩, ts', rfl, rfl, -⟩ := List.map_eq_cons_iff.1 hts
      exact hop rfl
  | between l before after u =>
    rw [lexemes, List.append_assoc, List.cons_append] at hts
    obtain ⟨ts₁, hl, hts₁⟩ := l.reads (hshort l (by simp [targets]))
      (by rintro k ⟨⟩; rfl) ts hts
    obtain ⟨⟨k, pos⟩, ts₂, rfl, rfl, hts₂⟩ := List.map_eq_cons_iff.1 hts₁
    obtain ⟨rest, hu, hrest⟩ := u.reads (hshort u (by simp [targets])) hls.endsTarget ts₂ hts₂
    refine ⟨rest, ?_, hrest⟩
    rw [Read.range, Read.startsOperator_eq_false (hts ▸ l.head?_lexemes _)]
    simp only [Bool.false_eq_true, if_false, hl, bind, Except.bind, Read.rangeAfter, hu]
    rfl

/-! ### Formulas -/

end Grammar

section Ranges

variable {ts rest : List Token} {r : Range}

theorem Read.ranges_of_error {e : Stop} (h : range ts = .error e) : ranges ts = .error e := by
  rw [ranges]
  split
  · next he =>
    rw [h] at he
    cases he
    rfl
  · next hr => rw [h] at hr; cases hr
  · next hr => rw [h] at hr; cases hr

/-- Behind bars there are further ranges. -/
theorem Read.ranges_of_or {b : List Char} {pos : ℕ} (h : range ts = .ok (r, ⟨.or b, pos⟩ :: rest)) :
    ranges ts = ranges rest >>= fun x => .ok (r :: x.1, x.2) := by
  rw [ranges]
  split
  · next he => rw [h] at he; cases he
  · next hr =>
    rw [h] at hr
    cases hr
    rfl
  · next hno hr =>
    rw [h] at hr
    cases hr
    exact absurd rfl (hno _ _ _)

/-- Anything else ends the ranges. -/
theorem Read.ranges_of_not_or (h : range ts = .ok (r, rest))
    (hno : ∀ b pos ts', rest ≠ ⟨.or b, pos⟩ :: ts') : ranges ts = .ok ([r], rest) := by
  rw [ranges]
  split
  · next he => rw [h] at he; cases he
  · next hr =>
    rw [h] at hr
    cases hr
    exact absurd rfl (hno _ _ _)
  · next hr =>
    rw [h] at hr
    cases hr
    rfl

end Ranges

namespace Grammar

/-- Ranges with bars between them, up to the end of the text. -/
theorem reads_ranges (r : Range) (more : List (Blanks × Blanks × Range))
    (hr : ∀ t ∈ r.targets, Short t.numerals)
    (hmore : ∀ m ∈ more, ∀ t ∈ m.2.2.targets, Short t.numerals) :
    Reads Read.ranges (r.lexemes ++
        more.flatMap fun m => .or (m.1.1 ++ '|' :: '|' :: m.2.1.1) :: m.2.2.lexemes)
      (r.denote :: more.map fun m => m.2.2.denote) [] := by
  induction more generalizing r with
  | nil =>
    intro ts hts
    obtain ⟨rest, hread, hrest⟩ := r.reads hr (by rintro l ⟨⟩) ts hts
    obtain rfl := List.map_eq_nil_iff.1 hrest
    exact ⟨[], Read.ranges_of_not_or hread (by rintro b pos ts' ⟨⟩), rfl⟩
  | cons m more ih =>
    intro ts hts
    obtain ⟨ts₁, hread, hts₁⟩ := r.reads hr (by rintro l ⟨⟩; exact ⟨_, rfl⟩) ts hts
    obtain ⟨⟨l, pos⟩, ts₂, rfl, rfl, hts₂⟩ := List.map_eq_cons_iff.1 hts₁
    obtain ⟨rest, hranges, hrest⟩ := ih m.2.2 (hmore m List.mem_cons_self)
      (fun k hk => hmore k (List.mem_cons_of_mem m hk)) ts₂ hts₂
    exact ⟨rest, by rw [Read.ranges_of_or hread, hranges]; rfl, hrest⟩

/-- **The tokens of a derivation are read as what it denotes**, if no numeral is too long. -/
theorem Formula.reads (d : Formula) (hshort : Short d.numerals) {ts : List Token}
    (hts : ts.map Token.lexeme = d.lexemes) : Read.formula ts = .ok d.denote := by
  cases d with
  | blank b =>
    obtain rfl := List.map_eq_nil_iff.1 hts
    rfl
  | ranges before r more after =>
    have hall : ∀ t ∈ r.targets ++ more.flatMap fun m => m.2.2.targets, Short t.numerals :=
      short_flatMap.1 hshort
    have hr : ∀ t ∈ r.targets, Short t.numerals := fun t ht => hall t (List.mem_append_left _ ht)
    have hmore : ∀ m ∈ more, ∀ t ∈ m.2.2.targets, Short t.numerals := fun m hm t ht =>
      hall t (List.mem_append_right _ (List.mem_flatMap.2 ⟨m, hm, ht⟩))
    obtain ⟨rest, hread, hrest⟩ := reads_ranges r more hr hmore ts hts
    obtain rfl := List.map_eq_nil_iff.1 hrest
    cases ts with
    | nil =>
      -- there are tokens, since reading a range takes at least one
      rw [Read.ranges] at hread
      cases hread
    | cons t ts =>
      simp only [Read.formula, List.isEmpty_cons, Bool.false_eq_true, if_false, hread, bind,
        Except.bind]
      rfl

end Grammar

end SemverRange
