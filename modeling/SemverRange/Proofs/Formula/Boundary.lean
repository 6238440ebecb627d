import SemverRange.Proofs.Formula.Reading

/-!
# Where one token ends

The scanner takes as much of the text as it can for one token.  What it finds at the head of a
text is therefore the token whose text stands there and which what follows does not go on with.
Only one or two characters behind the token are looked at, so the rest of the text can be cut off
or replaced.

## Main definitions

* `Lexeme.Fits prev l rest` — after the token `prev`, the token `l` ends where `rest` begins.
* `Blunt rest` — no token goes on with `rest`.

## Main results

* `Lexeme.scan_eq_some_iff` — **what the scanner finds** is the token that ends there.
* `exists_cut` — a text is cut off behind some of its tokens, and these are not changed.
-/

namespace SemverRange

theorem stops_dropWhile (p : Char → Bool) (cs : List Char) : Stops p (cs.dropWhile p) := by
  intro c hc
  cases hp : p c with
  | false => rfl
  | true =>
    have hne : cs.dropWhile p ≠ [] := List.ne_nil_of_mem (List.mem_of_mem_head? hc)
    have hhead := List.head_dropWhile_not p hne
    rw [(List.head_eq_iff_head?_eq_some hne).2 hc] at hhead
    rw [← hp, hhead]

theorem stops_of_takeWhile_eq_nil {p : Char → Bool} {cs : List Char}
    (h : cs.takeWhile p = []) : Stops p cs := by
  have hdrop := List.takeWhile_append_dropWhile (p := p) (l := cs)
  rw [h, List.nil_append] at hdrop
  rw [← hdrop]
  exact stops_dropWhile p cs

/-- A list of identifiers is taken as a whole. -/
theorem endsIdents_of_dotted {cs : List Char} {ids : List (List Char)} {rest : List Char}
    (h : dotted cs = some (ids, rest)) : EndsIdents rest := by
  induction cs using dotted.induct generalizing ids rest with
  | case1 cs hnil => rw [dotted, if_pos hnil] at h; cases h
  | case2 cs hne r hr ids' tail hd ih =>
    rw [dotted, if_neg hne] at h
    split at h
    · next r' hr' =>
      rw [hr] at hr'
      cases hr'
      rw [hd] at h
      cases h
      exact ih hd
    · next hx => exact absurd hr (hx r)
  | case3 cs hne r hr hd _ =>
    rw [dotted, if_neg hne] at h
    split at h
    · next r' hr' =>
      rw [hr] at hr'
      cases hr'
      rw [hd] at h
      cases h
      refine ⟨stops_cons.2 (by decide), ?_⟩
      -- no identifier stands behind the dot, or it would have been read
      rintro cs' ⟨⟩
      rw [dotted] at hd
      split at hd
      · next hstop => exact stops_of_takeWhile_eq_nil hstop
      · split at hd
        · split at hd <;> cases hd
        · cases hd
    · next hx => exact absurd hr (hx r)
  | case4 cs hne hx =>
    rw [dotted, if_neg hne] at h
    split at h
    · next r hr => exact absurd hr (hx r)
    · cases h
      refine ⟨stops_dropWhile _ cs, ?_⟩
      intro cs' hcs'
      exact absurd hcs' (hx cs')

namespace Lexeme

/-- After the token `prev`, the token does not go on with the text that follows it. -/
def Fits (prev : Option Lexeme) : Lexeme → List Char → Prop
  | or _, rest | dash _, rest => Stops isBlank rest
  | and _, rest => Stops isBlank rest ∧ (∀ cs, rest ≠ '|' :: '|' :: cs) ∧
      ∀ cs, rest = '-' :: cs → Stops isBlank cs
  | op .lt, rest | op .gt, rest => ∀ cs, rest ≠ '=' :: cs
  | num _, rest => Stops Char.isDigit rest
  | prerelease _, rest => (∃ ds, prev = some (num ds)) ∧ EndsIdents rest
  | build _, rest => ((∃ ds, prev = some (num ds)) ∨ ∃ ids, prev = some (prerelease ids)) ∧
      EndsIdents rest
  | _, _ => True

theorem fits_scanAttached {prev : Option Lexeme} {cs rest : List Char} {l : Lexeme}
    (h : scanAttached prev cs = some (l, rest)) : Fits prev l rest := by
  unfold scanAttached at h
  split at h
  · obtain ⟨⟨ids, tail⟩, hd, heq⟩ := Option.map_eq_some_iff.1 h
    cases heq
    exact ⟨⟨_, rfl⟩, endsIdents_of_dotted hd⟩
  · obtain ⟨⟨ids, tail⟩, hd, heq⟩ := Option.map_eq_some_iff.1 h
    cases heq
    exact ⟨.inl ⟨_, rfl⟩, endsIdents_of_dotted hd⟩
  · obtain ⟨⟨ids, tail⟩, hd, heq⟩ := Option.map_eq_some_iff.1 h
    cases heq
    exact ⟨.inr ⟨_, rfl⟩, endsIdents_of_dotted hd⟩
  · cases h

theorem fits_scanSolid {prev : Option Lexeme} {cs rest : List Char} {l : Lexeme}
    (h : scanSolid cs = some (l, rest)) : Fits prev l rest := by
  unfold scanSolid at h
  split at h
  · cases h; trivial
  · cases h; trivial
  · next hne =>
    cases h
    rintro cs rfl
    exact hne cs rfl
  · next hne =>
    cases h
    rintro cs rfl
    exact hne cs rfl
  · cases h; trivial
  · cases h; trivial
  · cases h; trivial
  · cases h; trivial
  · split at h
    · cases h
      exact stops_dropWhile _ _
    · split at h
      · cases h; trivial
      · split at h
        · cases h; trivial
        · cases h
  · cases h

theorem fits_scanAfter {prev : Option Lexeme} {b cs rest : List Char} {l : Lexeme}
    (hcs : Stops isBlank cs) (h : scanAfter b cs = some (l, rest)) : Fits prev l rest := by
  unfold scanAfter at h
  split at h
  · cases h
    exact stops_dropWhile _ _
  · split at h
    · cases h
    · split at h
      · next hstop =>
        cases h
        refine ⟨stops_cons.2 (by decide), nofun, ?_⟩
        rintro cs' ⟨⟩
        exact stops_of_takeWhile_eq_nil hstop
      · cases h
        exact stops_dropWhile _ _
  · next hbars hdash =>
    split at h
    · exact fits_scanSolid h
    · cases h
      refine ⟨hcs, fun cs' hcs' => hbars cs' hcs', ?_⟩
      intro cs' hcs'
      exact absurd hcs' (hdash cs')

/-- What the scanner finds ends where what follows begins. -/
theorem fits_scan {prev : Option Lexeme} {cs rest : List Char} {l : Lexeme}
    (h : scan prev cs = some (l, rest)) : Fits prev l rest := by
  unfold scan at h
  split at h
  · next found hf =>
    cases h
    exact fits_scanAttached hf
  · exact fits_scanAfter (stops_dropWhile _ _) h

theorem scan_and_of_fits {prev : Option Lexeme} {b rest : List Char} (hne : b ≠ [])
    (hb : ∀ c ∈ b, isBlank c = true) (h : Fits prev (and b) rest) :
    scan prev (b ++ rest) = some (and b, rest) := by
  obtain ⟨hrest, hbars, hdash⟩ := h
  rw [scan_blanks hne hb hrest]
  unfold scanAfter
  split
  · exact absurd rfl (hbars _)
  · rw [if_neg hne, if_pos (hdash _ rfl).takeWhile_eq_nil]
  · rw [if_neg hne]

/-- A token is found where its text stands and ends. -/
theorem scan_of_fits {prev : Option Lexeme} {l : Lexeme} {rest : List Char}
    (hwf : l.Wellformed) (h : Fits prev l rest) : scan prev (l.text ++ rest) = some (l, rest) := by
  cases l with
  | or cs =>
    obtain ⟨b, a, rfl, hb, ha⟩ := hwf
    have hscan := scan_or hb ha h prev
    simpa [text] using hscan
  | and cs => exact scan_and_of_fits hwf.1 hwf.2 h
  | dash cs =>
    obtain ⟨b, a, rfl, hb, ha⟩ := hwf
    have hscan := scan_dash hb.1 hb.2 ha.1 ha.2 h prev
    simpa [text] using hscan
  | op o =>
    cases o with
    | lt =>
      refine scan_op .lt ?_ prev
      rintro c hc rfl
      exact h _ (List.eq_cons_of_mem_head? hc)
    | gt =>
      refine scan_op .gt ?_ prev
      rintro c hc rfl
      exact h _ (List.eq_cons_of_mem_head? hc)
    | _ =>
      show scan prev (_ :: _) = _
      rw [scan_solid (by decide)]
      rfl
  | shorthand s => exact scan_shorthand s prev rest
  | v c => exact scan_v hwf prev rest
  | num ds => exact scan_num hwf.1 hwf.2 h prev
  | dot => exact scan_dot prev rest
  | wildcard c => exact scan_wildcard hwf prev rest
  | prerelease ids =>
    obtain ⟨⟨ds, rfl⟩, hrest⟩ := h
    exact scan_prerelease hwf.1 hwf.2 hrest ds
  | build ids =>
    obtain ⟨⟨ds, rfl⟩ | ⟨is, rfl⟩, hrest⟩ := h
    · exact scan_build hwf.1 hwf.2 hrest (.inl ⟨ds, rfl⟩)
    · exact scan_build hwf.1 hwf.2 hrest (.inr ⟨is, rfl⟩)

/-- **What the scanner finds** at the head of a text is the well-formed token whose text stands
there and which ends there. -/
theorem scan_eq_some_iff {prev : Option Lexeme} {l : Lexeme} {cs rest : List Char} :
    scan prev cs = some (l, rest) ↔ cs = l.text ++ rest ∧ l.Wellformed ∧ Fits prev l rest := by
  constructor
  · intro h
    exact ⟨(text_scan h).2.symm, wellformed_scan h, fits_scan h⟩
  · rintro ⟨rfl, hwf, h⟩
    exact scan_of_fits hwf h

end Lexeme

namespace Lexeme

/-- White space always belongs to a token. -/
theorem isBlank_of_scan_eq_none {prev : Option Lexeme} {c : Char} {cs : List Char}
    (h : scan prev (c :: cs) = none) : isBlank c = false := by
  cases hc : isBlank c with
  | false => rfl
  | true =>
    have hne : (c :: cs).takeWhile isBlank ≠ [] := by simp [hc]
    rw [← List.takeWhile_append_dropWhile (p := isBlank) (l := c :: cs),
      scan_blanks hne all_takeWhile (stops_dropWhile _ _)] at h
    unfold scanAfter at h
    split at h
    · cases h
    · rw [if_neg hne] at h
      split at h <;> cases h
    · rw [if_neg hne] at h
      cases h

end Lexeme

/-! ### White space within a token -/

theorem forall_mem_intercalate {P : Char → Prop} {sep : List Char} {ids : List (List Char)}
    (hsep : ∀ c ∈ sep, P c) (hids : ∀ i ∈ ids, ∀ c ∈ i, P c) : ∀ c ∈ sep.intercalate ids, P c := by
  induction ids with
  | nil => exact List.forall_mem_nil _
  | cons i ids ih =>
    obtain ⟨hi, hids⟩ := List.forall_mem_cons.1 hids
    cases ids with
    | nil => simpa using hi
    | cons j ids =>
      rw [List.intercalate_cons_cons]
      exact List.forall_mem_append.2 ⟨List.forall_mem_append.2 ⟨hi, hsep⟩, ih hids⟩

/-- There is nothing but white space in the text. -/
def Blank (cs : List Char) : Prop := ∀ c ∈ cs, isBlank c = true

/-- There is no white space in the text. -/
def Unspaced (cs : List Char) : Prop := ∀ c ∈ cs, isBlank c = false

instance (cs : List Char) : Decidable (Unspaced cs) :=
  decidable_of_decidable_of_iff (p := (cs.all fun c => !isBlank c) = true) (by simp [Unspaced])

/-- There is no white space in a token that does not separate two targets. -/
theorem Lexeme.unspaced_text {l : Lexeme} (hwf : l.Wellformed) (hl : l.isSeparator = false) :
    Unspaced l.text := by
  have hidents : ∀ {ids : List (List Char)},
      (ids ≠ [] ∧ ∀ i ∈ ids, i ≠ [] ∧ ∀ c ∈ i, isIdentifierChar c = true) →
        Unspaced (['.'].intercalate ids) := by
    intro ids hids
    refine forall_mem_intercalate (List.forall_mem_singleton.2 rfl) ?_
    intro i hi c hc
    exact isBlank_eq_false_of_isIdentifierChar ((hids.2 i hi).2 c hc)
  cases l with
  | or cs => cases hl
  | and cs => cases hl
  | dash cs => cases hl
  | op o => cases o <;> decide
  | shorthand s => cases s <;> decide
  | v c => rcases hwf with rfl | rfl <;> decide
  | num ds => exact fun c hc => (isSolid_of_isDigit (hwf.2 c hc)).1
  | dot => decide
  | wildcard c => rcases hwf with rfl | rfl | rfl <;> decide
  | prerelease ids => exact List.forall_mem_cons.2 ⟨by decide, hidents hwf⟩
  | build ids => exact List.forall_mem_cons.2 ⟨by decide, hidents hwf⟩

/-- Without the white space around it, a token other than white space is a piece of text that is
not empty and has no white space in it.  Only bars and dashes take up white space before them. -/
theorem Lexeme.exists_core {l : Lexeme} (hwf : l.Wellformed) (hne : l.text ≠ [])
    (hl : l.isAnd = false) :
    ∃ b q a : List Char, l.text = b ++ (q ++ a) ∧ Blank b ∧ Blank a ∧ q ≠ [] ∧ Unspaced q ∧
      (b ≠ [] → q = ['|', '|'] ∨ q = ['-']) := by
  cases hsep : l.isSeparator with
  | false =>
    exact ⟨[], l.text, [], by simp, List.forall_mem_nil _, List.forall_mem_nil _, hne,
      unspaced_text hwf hsep, fun h => absurd rfl h⟩
  | true =>
    cases l with
    | or cs =>
      obtain ⟨b, a, rfl, hb, ha⟩ := hwf
      exact ⟨b, ['|', '|'], a, rfl, hb, ha, by decide, by decide, fun _ => .inl rfl⟩
    | and cs => cases hl
    | dash cs =>
      obtain ⟨b, a, rfl, hb, ha⟩ := hwf
      exact ⟨b, ['-'], a, rfl, hb.2, ha.2, by decide, by decide, fun _ => .inr rfl⟩
    | _ => cases hsep

/-- The text neither starts nor ends with white space, and there is something in it. -/
structure Solid (cs : List Char) : Prop where
  /-- There is something in it. -/
  ne_nil : cs ≠ []
  /-- It does not start with white space. -/
  front : Stops isBlank cs
  /-- It does not end with white space. -/
  back : Stops isBlank cs.reverse

theorem Unspaced.solid {cs : List Char} (h : Unspaced cs) (hne : cs ≠ []) : Solid cs := by
  refine ⟨hne, ?_, ?_⟩
  · intro c hc
    exact h c (List.mem_of_mem_head? hc)
  · intro c hc
    exact h c (List.mem_reverse.1 (List.mem_of_mem_head? hc))

namespace Solid

theorem stops_append {cs : List Char} (h : Solid cs) (ds : List Char) :
    Stops isBlank (cs ++ ds) := by
  have hne := h.ne_nil
  have hfront := h.front
  cases cs with
  | nil => exact absurd rfl hne
  | cons c cs => exact stops_cons.2 (stops_cons.1 hfront)

theorem reverse {cs : List Char} (h : Solid cs) : Solid cs.reverse :=
  ⟨by simpa using h.ne_nil, h.back, by simpa using h.front⟩

/-- The white space around it is left out. -/
theorem strip_append {b cs a : List Char} (h : Solid cs) (hb : Blank b) (ha : Blank a) :
    strip (b ++ (cs ++ a)) = cs := by
  have hback : Stops isBlank (cs.reverse ++ []) := h.reverse.stops_append []
  have hreverse : ∀ c ∈ a.reverse, isBlank c = true := fun c hc => ha c (List.mem_reverse.1 hc)
  rw [strip, dropWhile_append_of_stops hb (h.stops_append a), List.reverse_append,
    ← List.append_nil cs.reverse, dropWhile_append_of_stops hreverse hback, List.append_nil,
    List.reverse_reverse]

end Solid

/-! ### Cutting a text off -/

/-- No token goes on with the text: it is empty, or starts with a sign for any number. -/
def Blunt (cs : List Char) : Prop := ∀ c ∈ cs.head?, c = '*'

section Blunt

variable {a r z : List Char} (hz : Blunt z)
include hz

/-- Behind some characters that are kept, the rest is replaced. -/
theorem ne_cons_cut {d : Char} (hd : d ≠ '*') (h : ∀ cs, a ++ r ≠ d :: cs) :
    ∀ cs, a ++ z ≠ d :: cs := by
  intro cs hcs
  cases a with
  | nil => exact hd (hz d (by rw [← List.nil_append z, hcs]; rfl))
  | cons e a =>
    simp only [List.cons_append, List.cons.injEq] at hcs
    exact h (a ++ r) (by rw [hcs.1, List.cons_append])

theorem Stops.cut {p : Char → Bool} (hp : p '*' = false) (h : Stops p (a ++ r)) :
    Stops p (a ++ z) := by
  intro c hc
  cases a with
  | nil => rw [hz c hc, hp]
  | cons d a => exact h c hc

/-- The same if a sign comes first, which is none of those that may be put there. -/
theorem Stops.cut_cons {p : Char → Bool} {d : Char} (hd : d ≠ '*') (hp : p '*' = false)
    (h : ∀ cs, a ++ r = d :: cs → Stops p cs) : ∀ cs, a ++ z = d :: cs → Stops p cs := by
  intro cs hcs
  cases a with
  | nil => exact absurd (hz d (by rw [← List.nil_append z, hcs]; rfl)) hd
  | cons e a =>
    simp only [List.cons_append, List.cons.injEq] at hcs
    obtain ⟨rfl, rfl⟩ := hcs
    exact Stops.cut hz hp (h _ rfl)

theorem EndsIdents.cut (h : EndsIdents (a ++ r)) : EndsIdents (a ++ z) :=
  ⟨Stops.cut hz (by decide) h.1, Stops.cut_cons hz (by decide) (by decide) h.2⟩

theorem Lexeme.Fits.cut {prev : Option Lexeme} {l : Lexeme} (h : Fits prev l (a ++ r)) :
    Fits prev l (a ++ z) := by
  cases l with
  | or cs => exact Stops.cut hz (by decide) h
  | dash cs => exact Stops.cut hz (by decide) h
  | and cs =>
    obtain ⟨hblank, hbars, hdash⟩ := h
    refine ⟨Stops.cut hz (by decide) hblank, ?_, ?_⟩
    · -- one bar may stand before the cut, and the other behind it
      intro cs hcs
      cases a with
      | nil => exact ne_cons_cut hz (a := []) (r := []) (by decide) nofun _ hcs
      | cons d a =>
        simp only [List.cons_append, List.cons.injEq] at hcs
        obtain ⟨rfl, hcs⟩ := hcs
        refine ne_cons_cut hz (r := r) (by decide) ?_ cs hcs
        intro cs' hcs'
        exact hbars cs' (by rw [List.cons_append, hcs'])
    · exact Stops.cut_cons hz (by decide) (by decide) hdash
  | op o =>
    cases o with
    | lt => exact ne_cons_cut hz (by decide) h
    | gt => exact ne_cons_cut hz (by decide) h
    | _ => trivial
  | num ds => exact Stops.cut hz (by decide) h
  | prerelease ids => exact ⟨h.1, h.2.cut hz⟩
  | build ids => exact ⟨h.1, h.2.cut hz⟩
  | _ => trivial

end Blunt

/-- **A text is cut off** behind the tokens `pre`, and something else is put there: the tokens
`pre` stay as they are.  White space between clauses stays only if something follows. -/
theorem exists_cut {prev : Option Lexeme} {pos : ℕ} {cs : List Char} {ts pre post : List Token}
    {z : List Char} {us : ℕ → List Token} (h : Token.scanFrom prev pos cs = .ok ts)
    (hts : ts = pre ++ post) (hz : Blunt z)
    (hus : ∀ prev pos, Token.scanFrom prev pos z = .ok (us pos))
    (hlast : z = [] → ∀ t ∈ pre.getLast?, t.lexeme.isAnd = false) :
    ∃ a r, cs = a ++ r ∧
      Token.scanFrom prev pos (a ++ z) = .ok (pre ++ us (pos + a.length)) := by
  -- along the scanner's own recursion, up to the last token that is kept
  induction prev, pos, cs using Token.scanFrom.induct generalizing ts pre with
  | case1 prev pos =>
    rw [Token.scanFrom] at h
    cases h
    obtain ⟨rfl, rfl⟩ := List.append_eq_nil_iff.1 hts.symm
    exact ⟨[], [], rfl, hus prev pos⟩
  | case2 prev pos c cs hnone =>
    rw [Token.scanFrom] at h
    split at h
    · cases h
    · next hsome => rw [hnone] at hsome; cases hsome
  | case3 prev pos c cs l rest hscan hdrop ih =>
    rw [scanFrom_of_scan hscan, if_pos hdrop] at h
    by_cases hpre : pre = []
    · subst hpre
      exact ⟨[], c :: cs, rfl, hus prev pos⟩
    · obtain ⟨a, r, rfl, ha⟩ := ih h hts hlast
      obtain ⟨hcs, hwf, hfits⟩ := Lexeme.scan_eq_some_iff.1 hscan
      refine ⟨l.text ++ a, r, by rw [hcs, List.append_assoc], ?_⟩
      have hscan' := Lexeme.scan_of_fits hwf (hfits.cut hz)
      have hdrop' : Token.isDropped prev l (a ++ z) = true := by
        simp only [Token.isDropped, Bool.and_eq_true, Bool.or_eq_true] at hdrop ⊢
        rcases hdrop with ⟨hand, hprev | hempty⟩
        · exact ⟨hand, .inl hprev⟩
        · -- nothing follows, so there is no token to be kept
          rw [List.isEmpty_iff.1 hempty, Token.scanFrom] at h
          cases h
          exact absurd (List.append_eq_nil_iff.1 hts.symm).1 hpre
      rw [List.append_assoc, scanFrom_of_scan hscan', if_pos hdrop', List.length_append,
        ← Nat.add_assoc]
      exact ha
  | case4 prev pos c cs l rest hscan hkeep ih =>
    rw [scanFrom_of_scan hscan, if_neg hkeep] at h
    cases hrest : Token.scanFrom (some l) (pos + l.text.length) rest with
    | error e => rw [hrest] at h; cases h
    | ok ts' =>
      rw [hrest] at h
      cases h
      cases pre with
      | nil => exact ⟨[], c :: cs, rfl, hus prev pos⟩
      | cons t pre =>
        simp only [List.cons_append, List.cons.injEq] at hts
        obtain ⟨rfl, hts⟩ := hts
        have hlast' : z = [] → ∀ t ∈ pre.getLast?, t.lexeme.isAnd = false :=
          fun hnil t ht => hlast hnil t (List.mem_getLast?_cons ht)
        obtain ⟨a, r, rfl, ha⟩ := ih hrest hts hlast'
        obtain ⟨hcs, hwf, hfits⟩ := Lexeme.scan_eq_some_iff.1 hscan
        refine ⟨l.text ++ a, r, by rw [hcs, List.append_assoc], ?_⟩
        have hscan' := Lexeme.scan_of_fits hwf (hfits.cut hz)
        have hkeep' : ¬ Token.isDropped prev l (a ++ z) = true := by
          simp only [Token.isDropped, Bool.and_eq_true, Bool.or_eq_true] at hkeep ⊢
          rintro ⟨hand, hprev | hempty⟩
          · exact hkeep ⟨hand, .inl hprev⟩
          · -- nothing follows, so this is the last token
            obtain ⟨rfl, rfl⟩ := List.append_eq_nil_iff.1 (List.isEmpty_iff.1 hempty)
            rw [List.append_nil, Token.scanFrom, Except.ok.injEq] at ha
            obtain ⟨rfl, -⟩ := List.append_eq_nil_iff.1 ha.symm
            exact absurd hand (Bool.eq_false_iff.1 (hlast rfl ⟨l, pos⟩ rfl))
        rw [List.append_assoc, scanFrom_of_scan hscan', if_neg hkeep', List.length_append,
          ← Nat.add_assoc, ha]
        rfl

end SemverRange
