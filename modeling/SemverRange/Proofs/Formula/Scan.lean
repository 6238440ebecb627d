import Mathlib.Data.Nat.Notation
import SemverRange.Formula.Token

/-!
# One step of the scanner

What the scanner finds at the head of a text, for each kind of token and under the weakest
condition on what follows it.  A run of characters of one class ends where a character of
another class, or nothing, follows; this is what `Stops` says.

## Main definitions

* `Stops p cs` — the text `cs` does not go on with a character of the class `p`.
* `Lexeme.Wellformed` — a token has the text that its kind asks for.

## Main results

* `dotted_intercalate` — identifiers joined by dots are read back.
* `Lexeme.scan_num`, `Lexeme.scan_prerelease`, `Lexeme.scan_and` and so on — each kind of token
  is found where its text stands.
* `Lexeme.wellformed_scan` — what is found is well formed.
-/

namespace SemverRange

/-- The text does not go on with a character of the class. -/
def Stops (p : Char → Bool) (cs : List Char) : Prop := ∀ c ∈ cs.head?, p c = false

theorem stops_nil (p : Char → Bool) : Stops p [] := by
  intro c hc
  cases hc

theorem stops_cons {p : Char → Bool} {c : Char} {cs : List Char} :
    Stops p (c :: cs) ↔ p c = false := by
  simp [Stops]

theorem Stops.mono {p q : Char → Bool} {cs : List Char} (hq : Stops q cs)
    (h : ∀ c, p c = true → q c = true) : Stops p cs := by
  intro c hc
  cases hp : p c with
  | false => rfl
  | true => rw [← h c hp, hq c hc]

theorem Stops.takeWhile_eq_nil {p : Char → Bool} {cs : List Char} (h : Stops p cs) :
    cs.takeWhile p = [] := by
  cases cs with
  | nil => rfl
  | cons c cs => rw [List.takeWhile_cons, stops_cons.1 h]; rfl

theorem Stops.dropWhile_eq_self {p : Char → Bool} {cs : List Char} (h : Stops p cs) :
    cs.dropWhile p = cs := by
  cases cs with
  | nil => rfl
  | cons c cs => rw [List.dropWhile_cons, stops_cons.1 h]; rfl

section Runs

variable {p : Char → Bool} {cs rest : List Char} (hcs : ∀ c ∈ cs, p c = true) (h : Stops p rest)
include hcs h

theorem takeWhile_append_of_stops : (cs ++ rest).takeWhile p = cs := by
  rw [List.takeWhile_append_of_pos hcs, h.takeWhile_eq_nil, List.append_nil]

theorem dropWhile_append_of_stops : (cs ++ rest).dropWhile p = rest := by
  rw [List.dropWhile_append_of_pos hcs, h.dropWhile_eq_self]

end Runs

theorem all_takeWhile {p : Char → Bool} {cs : List Char} : ∀ c ∈ cs.takeWhile p, p c = true :=
  List.all_eq_true.1 List.all_takeWhile

/-! ### Classes of characters -/

/-- The digits are one run of characters. -/
theorem toNat_of_isDigit {c : Char} (h : c.isDigit = true) : 48 ≤ c.toNat ∧ c.toNat ≤ 57 := by
  simp only [Char.isDigit, Bool.and_eq_true, decide_eq_true_eq, UInt32.le_iff_toNat_le] at h
  exact h

theorem isIdentifierChar_of_isDigit {c : Char} (h : c.isDigit = true) :
    isIdentifierChar c = true := by
  simp [isIdentifierChar, Char.isAlphanum, h]

theorem toNat_of_isIdentifierChar {c : Char} (h : isIdentifierChar c = true) :
    48 ≤ c.toNat ∧ c.toNat ≤ 57 ∨ 65 ≤ c.toNat ∧ c.toNat ≤ 90 ∨ 97 ≤ c.toNat ∧ c.toNat ≤ 122 ∨
      c.toNat = 45 := by
  have hc : (((decide ('A'.val ≤ c.val ∧ c.val ≤ 'Z'.val) ||
      (decide ('a'.val ≤ c.val) && decide (c.val ≤ 'z'.val))) ||
      (decide ('0'.val ≤ c.val) && decide (c.val ≤ '9'.val))) || decide (c = '-')) = true := h
  simp only [Bool.or_eq_true, Bool.and_eq_true, decide_eq_true_eq, UInt32.le_iff_toNat_le] at hc
  rcases hc with ((h | h) | h) | h
  · exact .inr (.inl h)
  · exact .inr (.inr (.inl h))
  · exact .inl h
  · exact .inr (.inr (.inr (h ▸ rfl)))

/-- White space is no part of an identifier. -/
theorem isBlank_eq_false_of_isIdentifierChar {c : Char} (h : isIdentifierChar c = true) :
    isBlank c = false := by
  have hc := toNat_of_isIdentifierChar h
  simp only [isBlank, Bool.or_eq_false_iff, Bool.and_eq_false_iff, decide_eq_false_iff_not]
  omega

theorem isIdentifierChar_eq_false_of_isBlank {c : Char} (h : isBlank c = true) :
    isIdentifierChar c = false := by
  cases hc : isIdentifierChar c with
  | false => rfl
  | true => rw [← h, isBlank_eq_false_of_isIdentifierChar hc]

/-! ### Identifiers joined by dots -/

/-- What follows does not extend a list of identifiers. -/
def EndsIdents (rest : List Char) : Prop :=
  Stops isIdentifierChar rest ∧ ∀ cs, rest = '.' :: cs → Stops isIdentifierChar cs

/-- Identifiers joined by dots are read back. -/
theorem dotted_intercalate {ids : List (List Char)} {rest : List Char} (hne : ids ≠ [])
    (hids : ∀ i ∈ ids, i ≠ [] ∧ ∀ c ∈ i, isIdentifierChar c = true) (hrest : EndsIdents rest) :
    dotted (['.'].intercalate ids ++ rest) = some (ids, rest) := by
  induction ids with
  | nil => exact absurd rfl hne
  | cons i is ih =>
    obtain ⟨hi, hin⟩ := hids i List.mem_cons_self
    cases is with
    | nil =>
      have htext : ['.'].intercalate [i] ++ rest = i ++ rest := by simp [List.intercalate]
      rw [htext, dotted, takeWhile_append_of_stops hin hrest.1,
        dropWhile_append_of_stops hin hrest.1, if_neg hi]
      split
      · next r =>
        -- a dot follows, but no identifier after it
        have hnone : dotted r = none := by
          rw [dotted, if_pos (hrest.2 r rfl).takeWhile_eq_nil]
        rw [hnone]
      · rfl
    | cons j js =>
      have hdot : Stops isIdentifierChar ('.' :: (['.'].intercalate (j :: js) ++ rest)) :=
        stops_cons.2 (by decide)
      have htext : ['.'].intercalate (i :: j :: js) ++ rest =
          i ++ '.' :: (['.'].intercalate (j :: js) ++ rest) := by
        simp [List.intercalate]
      rw [htext, dotted, takeWhile_append_of_stops hin hdot, dropWhile_append_of_stops hin hdot,
        if_neg hi]
      simp only [ih (by simp) fun k hk => hids k (List.mem_cons_of_mem i hk)]

/-! ### What the scanner finds -/

/-- The character is neither white space nor one of the signs whose meaning hangs on what
stands around them. -/
def IsSolid (c : Char) : Prop := isBlank c = false ∧ c ≠ '-' ∧ c ≠ '+' ∧ c ≠ '|'

instance (c : Char) : Decidable (IsSolid c) :=
  inferInstanceAs (Decidable (_ ∧ _ ∧ _ ∧ _))

theorem isSolid_of_isDigit {c : Char} (h : c.isDigit = true) : IsSolid c := by
  refine ⟨isBlank_eq_false_of_isIdentifierChar (isIdentifierChar_of_isDigit h), ?_, ?_, ?_⟩ <;>
    · rintro rfl
      exact absurd h (by decide)

namespace Lexeme

theorem scanAttached_eq_none {cs : List Char} (h : ∀ c ∈ cs.head?, c ≠ '-' ∧ c ≠ '+')
    (prev : Option Lexeme) : scanAttached prev cs = none := by
  unfold scanAttached
  split
  · exact absurd rfl (h _ rfl).1
  · exact absurd rfl (h _ rfl).2
  · exact absurd rfl (h _ rfl).2
  · rfl

theorem scan_eq_scanAfter {cs : List Char} (h : ∀ c ∈ cs.head?, c ≠ '-' ∧ c ≠ '+')
    (prev : Option Lexeme) :
    scan prev cs = scanAfter (cs.takeWhile isBlank) (cs.dropWhile isBlank) := by
  rw [scan, scanAttached_eq_none h]

theorem scan_solid {c : Char} (hc : IsSolid c) (prev : Option Lexeme) (cs : List Char) :
    scan prev (c :: cs) = scanSolid (c :: cs) := by
  have hstop : Stops isBlank (c :: cs) := stops_cons.2 hc.1
  rw [scan_eq_scanAfter (by rintro _ ⟨⟩; exact ⟨hc.2.1, hc.2.2.1⟩), hstop.takeWhile_eq_nil,
    hstop.dropWhile_eq_self, scanAfter, if_pos rfl]
  · rintro rest ⟨⟩
    exact hc.2.2.2 rfl
  · rintro rest ⟨⟩
    exact hc.2.1 rfl

/-- A character that is no sign of an operator and no dot. -/
theorem scanSolid_other {c : Char} (h : c ∉ ['>', '<', '=', '~', '^', '.']) (cs : List Char) :
    scanSolid (c :: cs) =
      if c.isDigit then some (num (c :: cs.takeWhile Char.isDigit), cs.dropWhile Char.isDigit)
      else if c = 'x' || c = 'X' || c = '*' then some (wildcard c, cs)
      else if c = 'v' || c = 'V' then some (v c, cs)
      else none := by
  simp only [List.mem_cons, List.not_mem_nil, or_false, not_or] at h
  rw [scanSolid]
  · exact fun _ he _ => h.1 he
  · exact fun _ he _ => h.2.1 he
  · exact h.1
  · exact h.2.1
  · exact h.2.2.1
  · exact h.2.2.2.1
  · exact h.2.2.2.2.1
  · exact h.2.2.2.2.2

theorem scan_num {ds rest : List Char} (hne : ds ≠ []) (hds : ∀ c ∈ ds, c.isDigit = true)
    (hrest : Stops Char.isDigit rest) (prev : Option Lexeme) :
    scan prev (ds ++ rest) = some (num ds, rest) := by
  cases ds with
  | nil => exact absurd rfl hne
  | cons d ds =>
    have hd : d.isDigit = true := hds d List.mem_cons_self
    -- the scanner looks for signs first, and a digit is none of them
    have hother : d ∉ ['>', '<', '=', '~', '^', '.'] := by
      intro hmem
      simp only [List.mem_cons, List.not_mem_nil, or_false] at hmem
      rcases hmem with rfl | rfl | rfl | rfl | rfl | rfl <;> exact absurd hd (by decide)
    have hin : ∀ c ∈ ds, c.isDigit = true := fun c hc => hds c (List.mem_cons_of_mem d hc)
    rw [List.cons_append, scan_solid (isSolid_of_isDigit hd), scanSolid_other hother, if_pos hd,
      takeWhile_append_of_stops hin hrest, dropWhile_append_of_stops hin hrest]

theorem scan_dot (prev : Option Lexeme) (rest : List Char) :
    scan prev ('.' :: rest) = some (dot, rest) := by
  rw [scan_solid (by decide)]
  rfl

theorem scan_wildcard {c : Char} (hc : c = 'x' ∨ c = 'X' ∨ c = '*') (prev : Option Lexeme)
    (rest : List Char) : scan prev (c :: rest) = some (wildcard c, rest) := by
  rcases hc with rfl | rfl | rfl <;>
    · rw [scan_solid (by decide)]
      rfl

theorem scan_v {c : Char} (hc : c = 'v' ∨ c = 'V') (prev : Option Lexeme) (rest : List Char) :
    scan prev (c :: rest) = some (v c, rest) := by
  rcases hc with rfl | rfl <;>
    · rw [scan_solid (by decide)]
      rfl

theorem scan_prerelease {ids : List (List Char)} {rest : List Char} (hne : ids ≠ [])
    (hids : ∀ i ∈ ids, i ≠ [] ∧ ∀ c ∈ i, isIdentifierChar c = true) (hrest : EndsIdents rest)
    (ds : List Char) :
    scan (some (num ds)) ('-' :: ['.'].intercalate ids ++ rest) = some (prerelease ids, rest) := by
  rw [scan, List.cons_append, scanAttached, dotted_intercalate hne hids hrest]
  rfl

/-- Build metadata comes after a number or a prerelease. -/
theorem scan_build {ids : List (List Char)} {rest : List Char} (hne : ids ≠ [])
    (hids : ∀ i ∈ ids, i ≠ [] ∧ ∀ c ∈ i, isIdentifierChar c = true) (hrest : EndsIdents rest)
    {l : Lexeme} (hl : (∃ ds, l = num ds) ∨ ∃ is, l = prerelease is) :
    scan (some l) ('+' :: ['.'].intercalate ids ++ rest) = some (build ids, rest) := by
  rcases hl with ⟨ds, rfl⟩ | ⟨is, rfl⟩ <;>
    · rw [scan, List.cons_append, scanAttached, dotted_intercalate hne hids hrest]
      rfl

/-- An operator is not cut off before an equality sign. -/
theorem scan_op (o : Op) {rest : List Char} (hrest : ∀ c ∈ rest.head?, c ≠ '=')
    (prev : Option Lexeme) : scan prev (o.sign ++ rest) = some (op o, rest) := by
  have hne : ∀ cs, rest ≠ '=' :: cs := by
    rintro cs rfl
    exact hrest '=' rfl rfl
  cases o with
  | eq => rw [Op.sign, List.cons_append, scan_solid (by decide)]; rfl
  | le => rw [Op.sign, List.cons_append, scan_solid (by decide)]; rfl
  | ge => rw [Op.sign, List.cons_append, scan_solid (by decide)]; rfl
  | lt =>
    rw [Op.sign, List.cons_append, scan_solid (by decide), List.nil_append, scanSolid]
    exact hne
  | gt =>
    rw [Op.sign, List.cons_append, scan_solid (by decide), List.nil_append, scanSolid]
    exact hne

theorem scan_shorthand (s : Shorthand) (prev : Option Lexeme) (rest : List Char) :
    scan prev (s.sign ++ rest) = some (shorthand s, rest) := by
  cases s <;>
    · rw [Shorthand.sign, List.cons_append, scan_solid (by decide)]
      rfl

/-! ### Tokens with white space -/

theorem ne_of_isBlank {c : Char} (h : isBlank c = true) : c ≠ '-' ∧ c ≠ '+' ∧ c ≠ '|' := by
  refine ⟨?_, ?_, ?_⟩ <;>
    · rintro rfl
      exact absurd h (by decide)

/-- A text that begins with white space is looked at from behind the white space. -/
theorem scan_blanks {b cs : List Char} (hne : b ≠ []) (hb : ∀ c ∈ b, isBlank c = true)
    (hcs : Stops isBlank cs) (prev : Option Lexeme) : scan prev (b ++ cs) = scanAfter b cs := by
  cases b with
  | nil => exact absurd rfl hne
  | cons c b =>
    have hc := ne_of_isBlank (hb c List.mem_cons_self)
    rw [scan_eq_scanAfter (by rintro _ ⟨⟩; exact ⟨hc.1, hc.2.1⟩), takeWhile_append_of_stops hb hcs,
      dropWhile_append_of_stops hb hcs]

theorem scan_and {b rest : List Char} (hne : b ≠ []) (hb : ∀ c ∈ b, isBlank c = true)
    (hrest : ∀ c ∈ rest.head?, IsSolid c) (prev : Option Lexeme) :
    scan prev (b ++ rest) = some (and b, rest) := by
  rw [scan_blanks hne hb fun c hc => (hrest c hc).1, scanAfter, if_neg hne]
  · rintro r rfl
    exact (hrest _ rfl).2.2.2 rfl
  · rintro r rfl
    exact (hrest _ rfl).2.1 rfl

theorem scan_dash {b a rest : List Char} (hbne : b ≠ []) (hb : ∀ c ∈ b, isBlank c = true)
    (hane : a ≠ []) (ha : ∀ c ∈ a, isBlank c = true) (hrest : Stops isBlank rest)
    (prev : Option Lexeme) :
    scan prev (b ++ '-' :: (a ++ rest)) = some (dash (b ++ '-' :: a), rest) := by
  rw [scan_blanks hbne hb (stops_cons.2 (by decide)), scanAfter, if_neg hbne,
    takeWhile_append_of_stops ha hrest, if_neg hane, dropWhile_append_of_stops ha hrest]

theorem scan_or {b a rest : List Char} (hb : ∀ c ∈ b, isBlank c = true)
    (ha : ∀ c ∈ a, isBlank c = true) (hrest : Stops isBlank rest) (prev : Option Lexeme) :
    scan prev (b ++ '|' :: '|' :: (a ++ rest)) = some (or (b ++ '|' :: '|' :: a), rest) := by
  have hstop : Stops isBlank ('|' :: '|' :: (a ++ rest)) := stops_cons.2 (by decide)
  -- the bars are found behind white space as they are without it
  have hscan : scan prev (b ++ '|' :: '|' :: (a ++ rest)) =
      scanAfter b ('|' :: '|' :: (a ++ rest)) := by
    by_cases hne : b = []
    · subst hne
      rw [List.nil_append, scan_eq_scanAfter (by rintro _ ⟨⟩; decide), hstop.takeWhile_eq_nil,
        hstop.dropWhile_eq_self]
    · exact scan_blanks hne hb hstop prev
  rw [hscan, scanAfter, takeWhile_append_of_stops ha hrest, dropWhile_append_of_stops ha hrest]

/-! ### Tokens are well formed -/

/-- The token has the text that its kind asks for. -/
def Wellformed : Lexeme → Prop
  | or cs => ∃ b a, cs = b ++ '|' :: '|' :: a ∧ (∀ c ∈ b, isBlank c = true) ∧
      ∀ c ∈ a, isBlank c = true
  | and cs => cs ≠ [] ∧ ∀ c ∈ cs, isBlank c = true
  | dash cs => ∃ b a, cs = b ++ '-' :: a ∧ (b ≠ [] ∧ ∀ c ∈ b, isBlank c = true) ∧
      a ≠ [] ∧ ∀ c ∈ a, isBlank c = true
  | op _ | shorthand _ | dot => True
  | v c => c = 'v' ∨ c = 'V'
  | num ds => ds ≠ [] ∧ ∀ c ∈ ds, c.isDigit = true
  | wildcard c => c = 'x' ∨ c = 'X' ∨ c = '*'
  | prerelease ids | build ids =>
    ids ≠ [] ∧ ∀ i ∈ ids, i ≠ [] ∧ ∀ c ∈ i, isIdentifierChar c = true

theorem idents_of_dotted {cs : List Char} {ids : List (List Char)} {rest : List Char}
    (h : dotted cs = some (ids, rest)) :
    ids ≠ [] ∧ ∀ i ∈ ids, i ≠ [] ∧ ∀ c ∈ i, isIdentifierChar c = true := by
  refine ⟨(intercalate_append_of_dotted h).1, ?_⟩
  induction cs using dotted.induct generalizing ids rest with
  | case1 cs hnil => rw [dotted, if_pos hnil] at h; cases h
  | case2 cs hne r hr ids' tail hd ih =>
    rw [dotted, if_neg hne] at h
    split at h
    · next r' hr' =>
      rw [hr] at hr'
      cases hr'
      rw [hd] at h
      cases h
      intro i hi
      rcases List.mem_cons.1 hi with rfl | hi
      · exact ⟨hne, all_takeWhile⟩
      · exact ih hd i hi
    · next hx => exact absurd hr (hx r)
  | case3 cs hne r hr hd _ =>
    rw [dotted, if_neg hne] at h
    split at h
    · next r' hr' =>
      rw [hr] at hr'
      cases hr'
      rw [hd] at h
      cases h
      exact List.forall_mem_singleton.2 ⟨hne, all_takeWhile⟩
    · next hx => exact absurd hr (hx r)
  | case4 cs hne hx =>
    rw [dotted, if_neg hne] at h
    split at h
    · next r hr => exact absurd hr (hx r)
    · cases h
      exact List.forall_mem_singleton.2 ⟨hne, all_takeWhile⟩

theorem wellformed_scanAttached {prev : Option Lexeme} {cs rest : List Char} {l : Lexeme}
    (h : scanAttached prev cs = some (l, rest)) : l.Wellformed := by
  unfold scanAttached at h
  split at h
  all_goals
    first
    | cases h
    | obtain ⟨⟨ids, tail⟩, hd, heq⟩ := Option.map_eq_some_iff.1 h
      cases heq
      exact idents_of_dotted hd

theorem wellformed_scanSolid {cs rest : List Char} {l : Lexeme}
    (h : scanSolid cs = some (l, rest)) : l.Wellformed := by
  unfold scanSolid at h
  split at h
  all_goals
    first
    | cases h
      trivial
    | skip
  next c cs _ _ _ _ _ _ _ _ =>
    split at h
    · next hc =>
      cases h
      refine ⟨by simp, fun d hd => ?_⟩
      rcases List.mem_cons.1 hd with rfl | hd
      · exact hc
      · exact all_takeWhile d hd
    · split at h
      · next hc =>
        cases h
        simpa [Wellformed, or_assoc] using hc
      · split at h
        · next hc =>
          cases h
          simpa [Wellformed] using hc
        · cases h
  · cases h

theorem wellformed_scanAfter {b cs rest : List Char} {l : Lexeme}
    (hb : ∀ c ∈ b, isBlank c = true) (h : scanAfter b cs = some (l, rest)) : l.Wellformed := by
  unfold scanAfter at h
  split at h
  · cases h
    exact ⟨b, _, rfl, hb, all_takeWhile⟩
  · split at h
    · cases h
    · next hne =>
      split at h
      · cases h
        exact ⟨hne, hb⟩
      · next hane =>
        cases h
        exact ⟨b, _, rfl, ⟨hne, hb⟩, hane, all_takeWhile⟩
  · split at h
    · exact wellformed_scanSolid h
    · next hne =>
      cases h
      exact ⟨hne, hb⟩

/-- What the scanner finds is well formed. -/
theorem wellformed_scan {prev : Option Lexeme} {cs rest : List Char} {l : Lexeme}
    (h : scan prev cs = some (l, rest)) : l.Wellformed := by
  unfold scan at h
  split at h
  · next found hf =>
    cases h
    exact wellformed_scanAttached hf
  · exact wellformed_scanAfter all_takeWhile h

end Lexeme

end SemverRange
