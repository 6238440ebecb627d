import SemverRange.Proofs.Formula.Boundary
import SemverRange.Proofs.Formula.Unambiguous

/-!
# Texts with other white space

One text is another with other white space if each run of white space in it stands in the place
of a run of white space, of any length and of any characters.  The scanner goes along both texts
alike, and finds tokens that differ in their white space only.

## Main definitions

* `Respaced cs cs'` — the text `cs'` is `cs` with other white space.
* `Lexeme.blur` — a token without the white space in it.

## Main results

* `Respaced.exists_scan` — one step of the scanner on both texts.
* `Respaced.exists_scans` — **both texts are cut into the same tokens**, but for white space.
-/

namespace SemverRange

/-- The second text is the first with other white space. -/
inductive Respaced : List Char → List Char → Prop
  | nil : Respaced [] []
  | cons {c : Char} {cs cs' : List Char} : isBlank c = false → Respaced cs cs' →
      Respaced (c :: cs) (c :: cs')
  | blanks {b b' cs cs' : List Char} : b ≠ [] → b' ≠ [] → Blank b → Blank b' →
      Stops isBlank cs → Stops isBlank cs' → Respaced cs cs' → Respaced (b ++ cs) (b' ++ cs')

namespace Respaced

variable {cs cs' : List Char}

theorem symm (h : Respaced cs cs') : Respaced cs' cs := by
  induction h with
  | nil => exact .nil
  | cons hc _ ih => exact .cons hc ih
  | blanks hne hne' hb hb' hcs hcs' _ ih => exact .blanks hne' hne hb' hb hcs' hcs ih

/-- What is no white space is the same in both texts. -/
theorem exists_of_cons {c : Char} (hc : isBlank c = false) (h : Respaced (c :: cs) cs') :
    ∃ ds, cs' = c :: ds ∧ Respaced cs ds := by
  generalize hall : c :: cs = all at h
  cases h with
  | nil => cases hall
  | @cons d ds ds' _ hrest =>
    cases hall
    exact ⟨ds', rfl, hrest⟩
  | @blanks b b' ds ds' hne _ hb _ _ _ _ =>
    cases b with
    | nil => exact absurd rfl hne
    | cons d b =>
      cases hall
      rw [hb c List.mem_cons_self] at hc
      cases hc

theorem exists_of_append {q : List Char} (hq : Unspaced q) (h : Respaced (q ++ cs) cs') :
    ∃ ds, cs' = q ++ ds ∧ Respaced cs ds := by
  induction q generalizing cs' with
  | nil => exact ⟨cs', rfl, h⟩
  | cons c q ih =>
    obtain ⟨hc, hq⟩ := List.forall_mem_cons.1 hq
    obtain ⟨ds, rfl, hrest⟩ := exists_of_cons hc h
    obtain ⟨es, rfl, hes⟩ := ih hq hrest
    exact ⟨es, rfl, hes⟩

/-- Where one text is no white space, the other is none. -/
theorem stops_isBlank (h : Respaced cs cs') (hcs : Stops isBlank cs) : Stops isBlank cs' := by
  cases h with
  | nil => exact hcs
  | cons hc _ => exact stops_cons.2 hc
  | @blanks b b' ds ds' hne _ hb _ _ _ _ =>
    cases b with
    | nil => exact absurd rfl hne
    | cons c b =>
      have hc : isBlank c = false := stops_cons.1 hcs
      rw [hb c List.mem_cons_self] at hc
      cases hc

/-- A class of characters without white space goes on in both texts or in none. -/
theorem stops {p : Char → Bool} (hp : ∀ c, p c = true → isBlank c = false) (h : Respaced cs cs')
    (hcs : Stops p cs) : Stops p cs' := by
  cases h with
  | nil => exact hcs
  | cons hc _ => exact stops_cons.2 (stops_cons.1 hcs)
  | @blanks b b' ds ds' _ hne' _ hb' _ _ _ =>
    cases b' with
    | nil => exact absurd rfl hne'
    | cons c b' =>
      refine stops_cons.2 ?_
      cases hc : p c with
      | false => rfl
      | true => rw [← hp c hc, hb' c List.mem_cons_self]

/-- A run of white space, which may be empty, is one in both texts or in none. -/
theorem exists_of_blanks {b : List Char} (hb : Blank b) (hcs : Stops isBlank cs)
    (h : Respaced (b ++ cs) cs') :
    ∃ b' ds, cs' = b' ++ ds ∧ Blank b' ∧ (b' = [] ↔ b = []) ∧ Stops isBlank ds ∧
      Respaced cs ds := by
  by_cases hnil : b = []
  · subst hnil
    exact ⟨[], cs', rfl, List.forall_mem_nil _, Iff.rfl, stops_isBlank h hcs, h⟩
  · generalize hall : b ++ cs = all at h
    cases h with
    | nil => exact absurd (List.append_eq_nil_iff.1 hall).1 hnil
    | @cons c ds ds' hc _ =>
      cases b with
      | nil => exact absurd rfl hnil
      | cons d b =>
        cases hall
        rw [hb c List.mem_cons_self] at hc
        cases hc
    | @blanks b₁ b' ds ds' _ hne' hb₁ hb' hds hds' hrest =>
      obtain ⟨rfl, rfl⟩ := blanks_append_inj hall hb hb₁ hcs hds
      exact ⟨b', ds', rfl, hb', by simp [hne', hnil], hds', hrest⟩

/-- A piece of text with white space around it, which may be empty, stands in both texts. -/
theorem exists_around {b q a rest : List Char} (h : Respaced (b ++ (q ++ (a ++ rest))) cs')
    (hb : Blank b) (hq : Unspaced q) (hne : q ≠ []) (ha : Blank a) (hrest : Stops isBlank rest) :
    ∃ b' a' rest', cs' = b' ++ (q ++ (a' ++ rest')) ∧ Blank b' ∧ Blank a' ∧ (b' = [] ↔ b = []) ∧
      (a' = [] ↔ a = []) ∧ Respaced rest rest' := by
  have hstops : Stops isBlank (q ++ (a ++ rest)) := (hq.solid hne).stops_append _
  obtain ⟨b', ds, rfl, hb', hbnil, -, hds⟩ := h.exists_of_blanks hb hstops
  obtain ⟨es, rfl, hes⟩ := hds.exists_of_append hq
  obtain ⟨a', rest', rfl, ha', hanil, -, hrest'⟩ := hes.exists_of_blanks ha hrest
  exact ⟨b', a', rest', rfl, hb', ha', hbnil, hanil, hrest'⟩

/-- The empty text is the same text with other white space. -/
theorem eq_nil_iff (h : Respaced cs cs') : cs' = [] ↔ cs = [] := by
  cases h with
  | nil => simp
  | cons => simp
  | blanks hne hne' _ _ _ _ _ => simp [hne, hne']

theorem isEmpty_eq (h : Respaced cs cs') : cs'.isEmpty = cs.isEmpty := by
  rw [Bool.eq_iff_iff, List.isEmpty_iff, List.isEmpty_iff, h.eq_nil_iff]

/-- A character that is no white space stands at the head of both texts or of none. -/
theorem ne_cons {c : Char} (hc : isBlank c = false) (h : Respaced cs cs')
    (hcs : ∀ ds, cs ≠ c :: ds) : ∀ ds, cs' ≠ c :: ds := by
  rintro ds rfl
  obtain ⟨es, rfl, -⟩ := exists_of_cons hc h.symm
  exact hcs es rfl

theorem endsIdents (h : Respaced cs cs') (hcs : EndsIdents cs) : EndsIdents cs' := by
  have hclass : ∀ c, isIdentifierChar c = true → isBlank c = false :=
    fun _ => isBlank_eq_false_of_isIdentifierChar
  refine ⟨stops hclass h hcs.1, ?_⟩
  rintro ds rfl
  obtain ⟨es, rfl, hrest⟩ := exists_of_cons (by decide) h.symm
  exact stops hclass hrest.symm (hcs.2 es rfl)

end Respaced

/-! ### Tokens -/

namespace Lexeme

/-- The token without the white space in it. -/
def blur : Lexeme → Lexeme
  | or _ => or []
  | and _ => and []
  | dash _ => dash []
  | l => l

theorem isAnd_blur (l : Lexeme) : l.blur.isAnd = l.isAnd := by cases l <;> rfl

theorem absorbsBlanks_blur (l : Lexeme) : l.blur.absorbsBlanks = l.absorbsBlanks := by
  cases l <;> rfl

theorem eq_num_of_blur {l : Lexeme} {ds : List Char} (h : l.blur = num ds) : l = num ds := by
  cases l <;> first | exact h | cases h

theorem eq_prerelease_of_blur {l : Lexeme} {ids : List (List Char)}
    (h : l.blur = prerelease ids) : l = prerelease ids := by
  cases l <;> first | exact h | cases h

end Lexeme

/-- The tokens before are the same but for white space. -/
theorem isDropped_of_blur {prev prev' : Option Lexeme} {l l' : Lexeme} {rest rest' : List Char}
    (hprev : prev.map Lexeme.blur = prev'.map Lexeme.blur) (hl : l.blur = l'.blur)
    (hrest : rest'.isEmpty = rest.isEmpty) :
    Token.isDropped prev l rest = Token.isDropped prev' l' rest' := by
  have hand : l.isAnd = l'.isAnd := by rw [← l.isAnd_blur, hl, l'.isAnd_blur]
  have hall : ∀ k : Option Lexeme,
      k.all Lexeme.absorbsBlanks = (k.map Lexeme.blur).all Lexeme.absorbsBlanks := by
    intro k
    cases k with
    | none => rfl
    | some k => exact k.absorbsBlanks_blur.symm
  rw [Token.isDropped, Token.isDropped, hand, hall prev, hprev, ← hall prev', hrest]

namespace Respaced

variable {prev prev' : Option Lexeme} {cs cs' rest : List Char} {l : Lexeme}

/-- The token ends in both texts alike. -/
theorem fits (hprev : prev.map Lexeme.blur = prev'.map Lexeme.blur) {rest' : List Char}
    (hrest : Respaced rest rest') (hfits : Lexeme.Fits prev l rest) :
    Lexeme.Fits prev' l rest' := by
  have hnum : ∀ ds, prev = some (.num ds) → prev' = some (.num ds) := by
    rintro ds rfl
    obtain ⟨k, rfl, hk⟩ := Option.map_eq_some_iff.1 hprev.symm
    rw [Lexeme.eq_num_of_blur hk]
  have hpre : ∀ ids, prev = some (.prerelease ids) → prev' = some (.prerelease ids) := by
    rintro ids rfl
    obtain ⟨k, rfl, hk⟩ := Option.map_eq_some_iff.1 hprev.symm
    rw [Lexeme.eq_prerelease_of_blur hk]
  cases l with
  | or b => exact hrest.stops_isBlank hfits
  | dash b => exact hrest.stops_isBlank hfits
  | and b =>
    obtain ⟨hblank, hbars, hdash⟩ := hfits
    refine ⟨hrest.stops_isBlank hblank, ?_, ?_⟩
    · rintro ds rfl
      obtain ⟨es, rfl, hes⟩ := exists_of_cons (by decide) hrest.symm
      obtain ⟨fs, rfl, -⟩ := exists_of_cons (by decide) hes
      exact hbars fs rfl
    · rintro ds rfl
      obtain ⟨es, rfl, hes⟩ := exists_of_cons (by decide) hrest.symm
      exact hes.symm.stops_isBlank (hdash es rfl)
  | op o =>
    cases o with
    | lt => exact hrest.ne_cons (by decide) hfits
    | gt => exact hrest.ne_cons (by decide) hfits
    | _ => trivial
  | num ds =>
    refine hrest.stops ?_ hfits
    intro c hc
    exact (isSolid_of_isDigit hc).1
  | prerelease ids =>
    obtain ⟨⟨ds, hds⟩, hends⟩ := hfits
    exact ⟨⟨ds, hnum ds hds⟩, hrest.endsIdents hends⟩
  | build ids =>
    obtain ⟨⟨ds, hds⟩ | ⟨is, his⟩, hends⟩ := hfits
    · exact ⟨.inl ⟨ds, hnum ds hds⟩, hrest.endsIdents hends⟩
    · exact ⟨.inr ⟨is, hpre is his⟩, hrest.endsIdents hends⟩
  | _ => trivial

/-- **One step of the scanner on both texts**: the same token, but for white space, and what
follows is the same, but for white space. -/
theorem exists_scan (h : Respaced cs cs') (hprev : prev.map Lexeme.blur = prev'.map Lexeme.blur)
    (hscan : Lexeme.scan prev cs = some (l, rest)) :
    ∃ l' rest', Lexeme.scan prev' cs' = some (l', rest') ∧ l.blur = l'.blur ∧
      Respaced rest rest' := by
  obtain ⟨rfl, hwf, hfits⟩ := Lexeme.scan_eq_some_iff.1 hscan
  cases hsep : l.isSeparator with
  | false =>
    obtain ⟨rest', rfl, hrest⟩ := exists_of_append (Lexeme.unspaced_text hwf hsep) h
    exact ⟨l, rest', Lexeme.scan_of_fits hwf (hrest.fits hprev hfits), rfl, hrest⟩
  | true =>
    -- the white space in the token is replaced as well
    cases l with
    | or text =>
      obtain ⟨b, a, rfl, hb, ha⟩ := hwf
      have htext : (Lexeme.or (b ++ '|' :: '|' :: a)).text ++ rest =
          b ++ (['|', '|'] ++ (a ++ rest)) := by simp [Lexeme.text]
      rw [htext] at h
      obtain ⟨b', a', rest', rfl, hb', ha', -, -, hrest⟩ :=
        h.exists_around hb (by decide) (by decide) ha hfits
      have hwf' : (Lexeme.or (b' ++ '|' :: '|' :: a')).Wellformed := ⟨b', a', rfl, hb', ha'⟩
      have hfits' : Lexeme.Fits prev' (.or (b' ++ '|' :: '|' :: a')) rest' :=
        hrest.stops_isBlank hfits
      refine ⟨.or (b' ++ '|' :: '|' :: a'), rest', ?_, rfl, hrest⟩
      simpa [Lexeme.text] using Lexeme.scan_of_fits hwf' hfits'
    | dash text =>
      obtain ⟨b, a, rfl, hb, ha⟩ := hwf
      have htext : (Lexeme.dash (b ++ '-' :: a)).text ++ rest = b ++ (['-'] ++ (a ++ rest)) := by
        simp [Lexeme.text]
      rw [htext] at h
      obtain ⟨b', a', rest', rfl, hb', ha', hbnil, hanil, hrest⟩ :=
        h.exists_around hb.2 (by decide) (by decide) ha.2 hfits
      have hwf' : (Lexeme.dash (b' ++ '-' :: a')).Wellformed :=
        ⟨b', a', rfl, ⟨mt hbnil.1 hb.1, hb'⟩, mt hanil.1 ha.1, ha'⟩
      have hfits' : Lexeme.Fits prev' (.dash (b' ++ '-' :: a')) rest' :=
        hrest.stops_isBlank hfits
      refine ⟨.dash (b' ++ '-' :: a'), rest', ?_, rfl, hrest⟩
      simpa [Lexeme.text] using Lexeme.scan_of_fits hwf' hfits'
    | and text =>
      obtain ⟨b', rest', rfl, hb', hbnil, -, hrest⟩ := h.exists_of_blanks hwf.2 hfits.1
      have hwf' : (Lexeme.and b').Wellformed := ⟨mt hbnil.1 hwf.1, hb'⟩
      have hfits' : Lexeme.Fits prev' (.and b') rest' := hrest.fits hprev hfits
      exact ⟨.and b', rest', Lexeme.scan_of_fits hwf' hfits', rfl, hrest⟩
    | _ => cases hsep

/-- **Both texts are cut into the same tokens**, but for white space. -/
theorem exists_scans {ls : List Lexeme} (hs : Scans prev cs ls) (h : Respaced cs cs')
    (hprev : prev.map Lexeme.blur = prev'.map Lexeme.blur) :
    ∃ ls', Scans prev' cs' ls' ∧ ls.map Lexeme.blur = ls'.map Lexeme.blur := by
  -- along the run on the first text; the second follows step by step
  induction hs generalizing cs' prev' with
  | stop prev =>
    obtain rfl := h.eq_nil_iff.2 rfl
    exact ⟨[], .stop prev', rfl⟩
  | @keep prev cs rest l ls hscan hkeep _ ih =>
    obtain ⟨l', rest', hscan', hl, hrest⟩ := h.exists_scan hprev hscan
    rw [isDropped_of_blur hprev hl hrest.isEmpty_eq] at hkeep
    have hprev' : (some l).map Lexeme.blur = (some l').map Lexeme.blur := congrArg some hl
    obtain ⟨ls', hls', hblur⟩ := ih hrest hprev'
    exact ⟨l' :: ls', .keep hscan' hkeep hls', by rw [List.map_cons, List.map_cons, hl, hblur]⟩
  | @drop prev cs rest l ls hscan hdrop _ ih =>
    obtain ⟨l', rest', hscan', hl, hrest⟩ := h.exists_scan hprev hscan
    rw [isDropped_of_blur hprev hl hrest.isEmpty_eq] at hdrop
    obtain ⟨ls', hls', hblur⟩ := ih hrest hprev
    exact ⟨ls', .drop hscan' hdrop hls', hblur⟩

end Respaced

end SemverRange
