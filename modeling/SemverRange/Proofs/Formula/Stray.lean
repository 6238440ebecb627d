import SemverRange.Proofs.Formula.Tiling

/-!
# Stray characters

A text is refused at the first character that starts no token.  What the scanner finds before that
character does not hang on what stands behind it: without the rest of the text the same character
is refused at the same place, and what stands before it is accepted.  A text that is accepted
consists of white space and of the letters, digits and signs of formulas.

## Main definitions

* `Token.Stray.EndsAt s prev pos a` — behind the text `a` the scanner ends at the character `s`.
* `IsLegible c`, `AllLegible cs` — the character, or all of the text, can stand in a formula.

## Main results

* `Lexeme.scan_singleton_eq_none` — a character that starts no token is none by itself.
* `exists_endsAt_of_stray` — the text before a stray character is cut into tokens.
* `Tiles.allLegible` — what consists of tokens consists of characters of formulas.
* `tokenize_stray` — **where a text is refused, and what a text that is accepted consists of.**
-/

namespace SemverRange

/-! ### The character that starts no token -/

namespace Lexeme

variable {prev : Option Lexeme} {l : Lexeme} {cs a r : List Char} {c : Char}

/-- Which characters start no token by themselves does not hang on what follows. -/
theorem scanSolid_eq_none_iff : scanSolid (c :: cs) = none ↔
    c ∉ ['>', '<', '=', '~', '^', '.'] ∧ c.isDigit = false ∧ c ∉ ['x', 'X', '*', 'v', 'V'] := by
  by_cases hc : c ∈ ['>', '<', '=', '~', '^', '.']
  · have hsome : scanSolid (c :: cs) ≠ none := by
      intro hnone
      unfold scanSolid at hnone
      split at hnone <;> simp_all
    exact iff_of_false hsome fun h => h.1 hc
  · rw [scanSolid_other hc]
    grind

/-- **A character that starts no token** is none by itself. -/
theorem scan_singleton_eq_none (h : scan prev (c :: cs) = none) : scan prev [c] = none := by
  have hblank := isBlank_of_scan_eq_none h
  by_cases hsign : c = '-' ∨ c = '+' ∨ c = '|'
  · -- none of the three signs has a meaning by itself
    have hattached : scanAttached prev [c] = none := by
      unfold scanAttached
      split <;> simp_all [dotted]
    rw [scan, hattached]
    rcases hsign with rfl | rfl | rfl <;> rfl
  · simp only [not_or] at hsign
    have hsolid : IsSolid c := ⟨hblank, hsign⟩
    rw [scan_solid hsolid, scanSolid_eq_none_iff] at h ⊢
    exact h

/-- A token is found also where the text is cut off behind it. -/
theorem scan_cut (h : scan prev cs = some (l, a ++ r)) : scan prev (l.text ++ a) = some (l, a) := by
  obtain ⟨-, hwf, hfits⟩ := scan_eq_some_iff.1 h
  have hblunt : Blunt [] := by
    intro c hc
    cases hc
  have hcut := hfits.cut hblunt
  rw [List.append_nil] at hcut
  exact scan_of_fits hwf hcut

end Lexeme

/-! ### Where the scanner ends -/

/-- The text `a`, which stands at `pos` behind the token `prev`, is cut into tokens; with the
stray character behind it, it is refused there. -/
structure Token.Stray.EndsAt (s : Stray) (prev : Option Lexeme) (pos : ℕ) (a : List Char) :
    Prop where
  /-- White space is never stray. -/
  solid : isBlank s.char = false
  /-- The character stands behind the text. -/
  pos_eq : s.pos = pos + a.length
  /-- The text is cut into tokens. -/
  exists_ok : ∃ ts, scanFrom prev pos a = .ok ts
  /-- With the character behind it, it is not. -/
  eq_error : scanFrom prev pos (a ++ [s.char]) = .error s

namespace Token.Stray.EndsAt

variable {s : Token.Stray} {prev : Option Lexeme} {pos : ℕ} {cs a r : List Char} {l : Lexeme}

/-- A character that starts no token is stray where it stands. -/
theorem of_scan_eq_none {c : Char} (h : Lexeme.scan prev (c :: cs) = none) (pos : ℕ) :
    EndsAt ⟨c, pos⟩ prev pos [] := by
  refine ⟨Lexeme.isBlank_of_scan_eq_none h, rfl, ⟨[], by rw [scanFrom]⟩, ?_⟩
  exact scanFrom_of_scan_eq_none (Lexeme.scan_singleton_eq_none h) pos

/-- White space before the text is dropped here as it is dropped there. -/
theorem drop (hscan : Lexeme.scan prev cs = some (l, a ++ s.char :: r))
    (hdrop : isDropped prev l (a ++ s.char :: r) = true)
    (h : s.EndsAt prev (pos + l.text.length) a) : s.EndsAt prev pos (l.text ++ a) := by
  have hdropped : ∀ rest, isDropped prev l rest = true := by
    intro rest
    simp_all [isDropped]
  obtain ⟨hsolid, hpos, ⟨ts, hok⟩, herror⟩ := h
  rw [List.append_cons] at hscan
  refine ⟨hsolid, ?_, ⟨ts, ?_⟩, ?_⟩
  · rw [hpos, List.length_append, Nat.add_assoc]
  · rw [List.append_assoc] at hscan
    rw [scanFrom_of_scan (Lexeme.scan_cut hscan), if_pos (hdropped a), hok]
  · rw [List.append_assoc, scanFrom_of_scan (Lexeme.scan_cut hscan), if_pos (hdropped _), herror]

/-- A token before the text is kept here as it is kept there, unless it is white space with nothing
behind it. -/
theorem keep (hscan : Lexeme.scan prev cs = some (l, a ++ s.char :: r))
    (hkeep : ¬isDropped prev l (a ++ s.char :: r) = true)
    (h : s.EndsAt (some l) (pos + l.text.length) a) : s.EndsAt prev pos (l.text ++ a) := by
  have hkept : ∀ rest, rest ≠ [] → ¬isDropped prev l rest = true := by
    intro rest hrest
    simp_all [isDropped]
  obtain ⟨hsolid, hpos, ⟨ts, hok⟩, herror⟩ := h
  rw [List.append_cons] at hscan
  refine ⟨hsolid, ?_, ?_, ?_⟩
  · rw [hpos, List.length_append, Nat.add_assoc]
  · rw [List.append_assoc] at hscan
    rw [scanFrom_of_scan (Lexeme.scan_cut hscan)]
    split
    · next hdrop =>
      -- dropped here and kept there, the token was the last one
      have hnil : a = [] := by
        by_contra hne
        exact hkept a hne hdrop
      rw [hnil, scanFrom]
      exact ⟨[], rfl⟩
    · rw [hok]
      exact ⟨⟨l, pos⟩ :: ts, rfl⟩
  · rw [List.append_assoc, scanFrom_of_scan (Lexeme.scan_cut hscan), if_neg (hkept _ (by simp)),
      herror]
    rfl

end Token.Stray.EndsAt

/-- **The text before a stray character is cut into tokens**, and with this character alone behind
it, it is refused there. -/
theorem exists_endsAt_of_stray {prev : Option Lexeme} {pos : ℕ} {cs : List Char} {s : Token.Stray}
    (h : Token.scanFrom prev pos cs = .error s) :
    ∃ a r, cs = a ++ s.char :: r ∧ s.EndsAt prev pos a := by
  -- along the scanner's own recursion, up to the character
  induction prev, pos, cs using Token.scanFrom.induct with
  | case1 prev pos =>
    rw [Token.scanFrom] at h
    cases h
  | case2 prev pos c cs hnone =>
    rw [scanFrom_of_scan_eq_none hnone] at h
    cases h
    exact ⟨[], cs, rfl, .of_scan_eq_none hnone pos⟩
  | case3 prev pos c cs l rest hscan hdrop ih =>
    rw [scanFrom_of_scan hscan, if_pos hdrop] at h
    obtain ⟨a, r, rfl, hends⟩ := ih h
    refine ⟨l.text ++ a, r, ?_, hends.drop hscan hdrop⟩
    rw [List.append_assoc, (Lexeme.text_scan hscan).2]
  | case4 prev pos c cs l rest hscan hkeep ih =>
    rw [scanFrom_of_scan hscan, if_neg hkeep] at h
    have hrest : Token.scanFrom (some l) (pos + l.text.length) rest = .error s := by
      cases hrest : Token.scanFrom (some l) (pos + l.text.length) rest with
      | ok ts => rw [hrest] at h; cases h
      | error s' => rw [hrest] at h; cases h; rfl
    obtain ⟨a, r, rfl, hends⟩ := ih hrest
    refine ⟨l.text ++ a, r, ?_, hends.keep hscan hkeep⟩
    rw [List.append_assoc, (Lexeme.text_scan hscan).2]

/-! ### The characters of a text that is accepted -/

/-- The character can stand in a formula: it is white space, a letter or digit of ASCII or a
sign. -/
def IsLegible (c : Char) : Prop :=
  isBlank c = true ∨ c.isAlphanum = true ∨
    c ∈ ['.', '-', '+', '|', '<', '>', '=', '~', '^', '*']

instance (c : Char) : Decidable (IsLegible c) :=
  inferInstanceAs (Decidable (_ ∨ _ ∨ _))

/-- The text consists of characters that can stand in a formula. -/
def AllLegible (cs : List Char) : Prop := ∀ c ∈ cs, IsLegible c

instance (cs : List Char) : Decidable (AllLegible cs) := List.decidableBAll _ cs

theorem Blank.allLegible {b : List Char} (h : Blank b) : AllLegible b := fun c hc => .inl (h c hc)

theorem AllLegible.append {cs ds : List Char} (hcs : AllLegible cs) (hds : AllLegible ds) :
    AllLegible (cs ++ ds) := List.forall_mem_append.2 ⟨hcs, hds⟩

theorem isLegible_of_isIdentifierChar {c : Char} (h : isIdentifierChar c = true) :
    IsLegible c := by
  rcases Bool.or_eq_true_iff.1 h with hletter | hdash
  · exact .inr (.inl hletter)
  · obtain rfl := of_decide_eq_true hdash
    exact .inr (.inr (by decide))

/-- **A token consists of characters of formulas.** -/
theorem Lexeme.Wellformed.allLegible {l : Lexeme} (h : l.Wellformed) : AllLegible l.text := by
  have hidents : ∀ {ids : List (List Char)},
      (ids ≠ [] ∧ ∀ i ∈ ids, i ≠ [] ∧ ∀ c ∈ i, isIdentifierChar c = true) →
        AllLegible (['.'].intercalate ids) := by
    intro ids hids
    have hdot : AllLegible ['.'] := by decide
    refine forall_mem_intercalate hdot ?_
    intro i hi c hc
    exact isLegible_of_isIdentifierChar ((hids.2 i hi).2 c hc)
  cases l with
  | or cs =>
    obtain ⟨b, a, rfl, hb, ha⟩ := h
    have hbars : AllLegible ['|', '|'] := by decide
    exact (Blank.allLegible hb).append (hbars.append (Blank.allLegible ha))
  | and cs => exact Blank.allLegible h.2
  | dash cs =>
    obtain ⟨b, a, rfl, ⟨-, hb⟩, -, ha⟩ := h
    have hdash : AllLegible ['-'] := by decide
    exact (Blank.allLegible hb).append (hdash.append (Blank.allLegible ha))
  | op o => cases o <;> decide
  | shorthand s => cases s <;> decide
  | v c => rcases h with rfl | rfl <;> decide
  | num ds =>
    intro c hc
    exact isLegible_of_isIdentifierChar (isIdentifierChar_of_isDigit (h.2 c hc))
  | dot => decide
  | wildcard c => rcases h with rfl | rfl | rfl <;> decide
  | prerelease ids =>
    have hdash : AllLegible ['-'] := by decide
    exact hdash.append (hidents h)
  | build ids =>
    have hplus : AllLegible ['+'] := by decide
    exact hplus.append (hidents h)

/-- What consists of tokens and white space consists of characters of formulas. -/
theorem Tiles.allLegible {pos : ℕ} {cs : List Char} {as : List Cell} (h : Tiles pos cs as) :
    AllLegible cs := by
  induction h with
  | stop hb => exact Blank.allLegible hb
  | cell hb hwf _ _ ih => exact (Blank.allLegible hb).append (hwf.allLegible.append ih)

/-! ### Whole texts -/

/-- **Where a text is refused, and what a text that is accepted consists of.**  A text that is
accepted consists of characters that can stand in a formula.  Otherwise the character that is named
in the message is no white space and stands at the position that is named there.  The text up
to this position is accepted, and with the character at its end it is refused in the same place:
what comes behind does not matter. -/
theorem tokenize_stray (source : String) :
    match tokenize source with
    | .ok _ => ∀ c ∈ source.toList, IsLegible c
    | .error e => ∃ c p, e = ⟨source, .stray c p⟩ ∧ source.toList[p]? = some c ∧
        isBlank c = false ∧
        (∃ ts, tokenize (String.ofList (source.toList.take p)) = .ok ts) ∧
        let text := String.ofList (source.toList.take (p + 1))
        tokenize text = .error ⟨text, .stray c p⟩ := by
  cases hscan : Token.scanFrom none 0 source.toList with
  | ok ts =>
    have hts : tokenize source = .ok ⟨ts, source.length⟩ := by rw [tokenize, hscan]
    rw [hts]
    exact (tiles_of_tokenize hts).allLegible
  | error s =>
    obtain ⟨a, r, hsource, hends⟩ := exists_endsAt_of_stray hscan
    have hpos : s.pos = a.length := by
      rw [hends.pos_eq, Nat.zero_add]
    have hbefore : source.toList.take s.pos = a := by
      rw [hsource, hpos, List.take_left]
    have hupto : source.toList.take (s.pos + 1) = a ++ [s.char] := by
      rw [hsource, hpos, List.append_cons]
      exact List.take_left' (by simp)
    obtain ⟨ts, hok⟩ := hends.exists_ok
    have herror : tokenize source = .error ⟨source, .stray s.char s.pos⟩ := by
      rw [tokenize, hscan]
    rw [herror]
    refine ⟨s.char, s.pos, rfl, ?_, hends.solid, ?_, ?_⟩
    · rw [hsource, hpos]
      simp
    · rw [hbefore]
      exact ⟨⟨ts, (String.ofList a).length⟩, by rw [tokenize, String.toList_ofList, hok]⟩
    · intro text
      have htext : text.toList = a ++ [s.char] := by
        rw [String.toList_ofList, hupto]
      rw [tokenize, htext, hends.eq_error]

/-- A plus sign is stray where no identifier stands behind it; behind `1+` there could be one. -/
example : tokenize "1+ 2" = .error ⟨"1+ 2", .stray '+' 1⟩ ∧
    tokenize "1+" = .error ⟨"1+", .stray '+' 1⟩ ∧ tokenize "1" = .ok ⟨[⟨.num ['1'], 0⟩], 1⟩ := by
  decide +kernel

end SemverRange
