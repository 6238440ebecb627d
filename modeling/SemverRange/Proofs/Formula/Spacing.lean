import SemverRange.Proofs.Formula.Agreement
import SemverRange.Proofs.Formula.Respaced
import SemverRange.Proofs.Version.Notation

/-!
# White space matters only by its presence

The reading functions look at the kind of a token and at what is written in it, but not at its
place and not at the white space in it.  So they commute with blurring the tokens, and texts that
are the same but for their white space have the same outcome.  White space at the two ends of a
text may also be left out.  A dash at an end is refused with it and without it, but for another
reason, so that only success is kept.

## Main definitions

* `Token.blur`, `Stop.blur` — a token without its place and white space, and a reason to stop.
* `Read.blurred` — what a reading function gives, with the tokens in it blurred.
* `SameOutcome` — the same value, the same fault, or two faults of syntax of the same kind.
* `Solid` — a text that neither starts nor ends with white space.

## Main results

* `Read.formula_blur`, `Read.target_blur` — reading blurred tokens.
* `Formula.parse_strip` — white space around a formula is left out.
* `Formula.parse_respaced` — **white space matters only by its presence**.
-/

namespace SemverRange

/-! ### Reading blurred tokens -/

/-- The token without its place and without the white space in it. -/
def Token.blur (t : Token) : Token := ⟨t.lexeme.blur, 0⟩

theorem Token.map_blur (ts : List Token) : ts.map Token.blur =
    ((ts.map Token.lexeme).map Lexeme.blur).map fun l => ⟨l, 0⟩ := by
  rw [List.map_map, List.map_map]
  rfl

/-- The reason with its token blurred. -/
def Stop.blur : Stop → Stop
  | misplaced found complaint => misplaced (found.map Token.blur) complaint
  | ofNumeral f => ofNumeral f
  | ofVersion d => ofVersion d

namespace Read

variable {α β α' β' : Type}

/-- What a reading function gives, with the tokens blurred; `g` blurs what has been read. -/
def blurred (g : α → α') : Except Stop (α × List Token) → Except Stop (α' × List Token)
  | .ok (a, ts) => .ok (g a, ts.map Token.blur)
  | .error e => .error e.blur

theorem bind_blurred {g : α → α'} {k : β → β'} {x : Except Stop (α × List Token)}
    {f : α × List Token → Except Stop (β × List Token)}
    {f' : α' × List Token → Except Stop (β' × List Token)}
    (h : ∀ a ts, x = .ok (a, ts) → f' (g a, ts.map Token.blur) = blurred k (f (a, ts))) :
    blurred g x >>= f' = blurred k (x >>= f) := by
  cases x with
  | error e => rfl
  | ok y => exact h y.1 y.2 rfl

theorem map_blurred (k : α → β) (x : Except Stop (α × List Token)) :
    (blurred id x >>= fun y => pure (k y.1, y.2)) =
      blurred id (x >>= fun y => pure (k y.1, y.2)) :=
  bind_blurred fun _ _ _ => rfl

/-- A step that does not look at tokens is the same before blurred tokens. -/
theorem bind_numeral_blurred {g : α → α'} {x : Except Stop β} {f : β → Except Stop (α × List Token)}
    {f' : β → Except Stop (α' × List Token)} (hx : ∀ e, x = .error e → e.blur = e)
    (h : ∀ b, f' b = blurred g (f b)) : x >>= f' = blurred g (x >>= f) := by
  cases x with
  | error e => exact congrArg Except.error (hx e rfl).symm
  | ok b => exact h b

theorem blur_of_numeral_eq_error {ds : List Char} {e : Stop} (h : numeral ds = .error e) :
    e.blur = e := by
  unfold numeral at h
  cases hread : Numeral.read ds with
  | ok n => rw [hread] at h; cases h
  | error f => rw [hread] at h; cases h; rfl

theorem blur_of_identifiers_eq_error {ids : List (List Char)} {e : Stop}
    (h : ids.mapM identifier = .error e) : e.blur = e := by
  induction ids generalizing e with
  | nil => cases h
  | cons i ids ih =>
    rw [List.mapM_cons] at h
    cases hi : identifier i with
    | error e' =>
      rw [hi] at h
      cases h
      unfold identifier at hi
      split at hi
      · cases hn : numeral i with
        | error e'' =>
          rw [hn] at hi
          cases hi
          exact blur_of_numeral_eq_error hn
        | ok n => rw [hn] at hi; cases hi
      · cases hi
    | ok x =>
      cases hids : ids.mapM identifier with
      | error e' =>
        rw [hi, hids] at h
        cases h
        exact ih hids
      | ok xs => rw [hi, hids] at h; cases h

theorem part_blur (ts : List Token) :
    part (ts.map Token.blur) = blurred (Prod.map id Token.blur) (part ts) := by
  cases ts with
  | nil => rfl
  | cons t ts =>
    obtain ⟨l, pos⟩ := t
    cases l with
    | num ds => exact bind_numeral_blurred (fun _ => blur_of_numeral_eq_error) fun _ => rfl
    | _ => rfl

/-- A dot is a dot, blurred or not. -/
theorem blur_eq_dot (t : Token) : t.blur.lexeme = .dot ↔ t.lexeme = .dot := by
  obtain ⟨l, pos⟩ := t
  cases l <;> simp [Token.blur, Lexeme.blur]

theorem parts_blur (n : ℕ) (last : Token) (ts : List Token) :
    parts n last.blur (ts.map Token.blur) =
      blurred (Prod.map id Token.blur) (parts n last ts) := by
  induction n generalizing last ts with
  | zero => rfl
  | succ n ih =>
    cases ts with
    | nil => rfl
    | cons t ts =>
      rw [List.map_cons, parts, parts]
      simp only [blur_eq_dot]
      split
      · rw [part_blur]
        refine bind_blurred ?_
        rintro ⟨p, last'⟩ ts' -
        show (parts n last'.blur (ts'.map Token.blur) >>= _) = _
        rw [ih]
        exact bind_blurred fun _ _ _ => rfl
      · rfl

theorem prerelease_blur (ts : List Token) :
    prerelease (ts.map Token.blur) = blurred id (prerelease ts) := by
  cases ts with
  | nil => rfl
  | cons t ts =>
    obtain ⟨l, pos⟩ := t
    cases l with
    | prerelease ids =>
      exact bind_numeral_blurred (fun _ => blur_of_identifiers_eq_error) fun _ => rfl
    | _ => rfl

theorem build_blur (ts : List Token) :
    build (ts.map Token.blur) = ((build ts).1, (build ts).2.map Token.blur) := by
  cases ts with
  | nil => rfl
  | cons t ts =>
    obtain ⟨l, pos⟩ := t
    cases l <;> rfl

theorem startsAttached_blur (ts : List Token) :
    startsAttached (ts.map Token.blur) = startsAttached ts := by
  cases ts with
  | nil => rfl
  | cons t ts =>
    obtain ⟨l, pos⟩ := t
    cases l <;> rfl

theorem finish_blur (ps : List Part) (last : Token) (ts : List Token) :
    finish ps last.blur (ts.map Token.blur) = blurred id (finish ps last ts) := by
  unfold finish
  split
  · rfl
  · split
    · rw [prerelease_blur]
      refine bind_blurred fun pre ts' _ => ?_
      simp only [id_eq, build_blur]
      cases Version.ofParts? _ _ _ pre (build ts').1 <;> rfl
    · rw [startsAttached_blur]
      split
      · cases ts <;> rfl
      · rfl

theorem skipV_blur (ts : List Token) : skipV (ts.map Token.blur) = (skipV ts).map Token.blur := by
  cases ts with
  | nil => rfl
  | cons t ts =>
    obtain ⟨l, pos⟩ := t
    cases l <;> rfl

theorem target_blur (ts : List Token) : target (ts.map Token.blur) = blurred id (target ts) := by
  unfold target
  rw [skipV_blur, part_blur]
  refine bind_blurred ?_
  rintro ⟨p, last⟩ ts₁ -
  show (parts 2 last.blur (ts₁.map Token.blur) >>= _) = _
  rw [parts_blur]
  refine bind_blurred ?_
  rintro ⟨ps, last'⟩ ts₂ -
  exact finish_blur (p :: ps) last' ts₂

theorem wrapTarget_blur (k : Target → α) (ts : List Token) :
    (target (ts.map Token.blur) >>= fun y => pure (k y.1, y.2)) =
      blurred id (target ts >>= fun y => pure (k y.1, y.2)) := by
  rw [target_blur]
  exact map_blurred k (target ts)

theorem clause_blur (ts : List Token) : clause (ts.map Token.blur) = blurred id (clause ts) := by
  cases ts with
  | nil => rfl
  | cons t ts =>
    obtain ⟨l, pos⟩ := t
    cases l with
    | op o => exact wrapTarget_blur _ ts
    | shorthand s => exact wrapTarget_blur _ ts
    | _ => exact wrapTarget_blur _ (_ :: ts)

theorem clauses_blur (ts : List Token) :
    clauses (ts.map Token.blur) = blurred id (clauses ts) := by
  -- along the recursion on the tokens as they are
  induction ts using clauses.induct with
  | case1 b pos ts e he =>
    show clauses (⟨.and [], 0⟩ :: ts.map Token.blur) = _
    rw [clauses_and, clauses_and, clause_blur, he]
    rfl
  | case2 b pos ts c rest hc ih =>
    show clauses (⟨.and [], 0⟩ :: ts.map Token.blur) = _
    rw [clauses_and, clauses_and, clause_blur, hc]
    show (clauses (rest.map Token.blur) >>= _) = blurred id (clauses rest >>= _)
    rw [ih]
    exact bind_blurred fun _ _ _ => rfl
  | case3 ts hno =>
    rw [clauses_of_not_and hno, clauses_of_not_and]
    · rfl
    · rintro b pos ts' hts
      obtain ⟨⟨l, p⟩, us, rfl, hl, -⟩ := List.map_eq_cons_iff.1 hts
      cases l with
      | and b' => exact hno b' p us rfl
      | _ => cases hl

theorem rangeAfter_blur (t : Target) (ts : List Token) :
    rangeAfter t (ts.map Token.blur) = blurred id (rangeAfter t ts) := by
  have hclauses : ∀ us : List Token,
      (clauses (us.map Token.blur) >>= fun y => pure (Range.all (.bare t :: y.1), y.2)) =
        blurred id (clauses us >>= fun y => pure (Range.all (.bare t :: y.1), y.2)) := by
    intro us
    rw [clauses_blur]
    exact map_blurred (fun cs => Range.all (.bare t :: cs)) (clauses us)
  cases ts with
  | nil => exact hclauses []
  | cons k ts =>
    obtain ⟨l, pos⟩ := k
    cases l with
    | dash b => exact wrapTarget_blur _ ts
    | _ => exact hclauses (_ :: ts)

theorem startsOperator_blur (ts : List Token) :
    startsOperator (ts.map Token.blur) = startsOperator ts := by
  cases ts with
  | nil => rfl
  | cons t ts =>
    obtain ⟨l, pos⟩ := t
    cases l <;> rfl

theorem range_blur (ts : List Token) : range (ts.map Token.blur) = blurred id (range ts) := by
  unfold range
  rw [startsOperator_blur]
  split
  · rw [clause_blur]
    refine bind_blurred fun c ts' _ => ?_
    show (clauses (ts'.map Token.blur) >>= _) = _
    rw [clauses_blur]
    exact map_blurred (fun cs => Range.all (c :: cs)) (clauses ts')
  · rw [target_blur]
    exact bind_blurred fun t ts' _ => rangeAfter_blur t ts'

theorem ranges_blur (ts : List Token) : ranges (ts.map Token.blur) = blurred id (ranges ts) := by
  induction ts using ranges.induct with
  | case1 ts e he =>
    have hblur : range (ts.map Token.blur) = .error e.blur := by rw [range_blur, he]; rfl
    rw [ranges_of_error he, ranges_of_error hblur]
    rfl
  | case2 ts r b pos rest hr ih =>
    have hblur : range (ts.map Token.blur) = .ok (r, ⟨.or [], 0⟩ :: rest.map Token.blur) := by
      rw [range_blur, hr]
      rfl
    rw [ranges_of_or hr, ranges_of_or hblur, ih]
    exact bind_blurred fun _ _ _ => rfl
  | case3 ts r rest hno hr =>
    have hblur : range (ts.map Token.blur) = .ok (r, rest.map Token.blur) := by
      rw [range_blur, hr]
      rfl
    rw [ranges_of_not_or hr hno, ranges_of_not_or hblur]
    · rfl
    · rintro b pos ts' hts
      obtain ⟨⟨l, p⟩, us, rfl, hl, -⟩ := List.map_eq_cons_iff.1 hts
      cases l with
      | or b' => exact hno b' p us rfl
      | _ => cases hl

/-- The formula of blurred tokens is the same, and so is the reason why there is none. -/
theorem formula_blur (ts : List Token) :
    formula (ts.map Token.blur) = (formula ts).mapError Stop.blur := by
  cases ts with
  | nil => rfl
  | cons t ts =>
    show (ranges ((t :: ts).map Token.blur) >>= fun y =>
        done y.2 >>= fun _ => pure (Formula.mk y.1)) =
      (ranges (t :: ts) >>= fun y =>
        done y.2 >>= fun _ => pure (Formula.mk y.1)).mapError Stop.blur
    rw [ranges_blur]
    cases ranges (t :: ts) with
    | error e => rfl
    | ok y =>
      obtain ⟨rs, rest⟩ := y
      cases rest <;> rfl

end Read

/-! ### Outcomes -/

/-- The same value, the same fault, or two faults of syntax that are both lexical or both not. -/
inductive SameOutcome {α : Type} : Except Fault α → Except Fault α → Prop
  | value (a : α) : SameOutcome (.ok a) (.ok a)
  | fault (e : Fault) : SameOutcome (.error e) (.error e)
  | refusal {f f' : SyntaxFault} : f.reason.isLexical = f'.reason.isLexical →
      SameOutcome (.error (.ofSyntax f)) (.error (.ofSyntax f'))

section Outcome

variable {α : Type} {goal : Goal} (source source' : String)

theorem SameOutcome.of_blur {e e' : Stop} (h : e.blur = e'.blur) :
    SameOutcome (α := α) (.error (e.toFault source goal)) (.error (e'.toFault source' goal)) := by
  cases e with
  | misplaced found complaint =>
    cases e' with
    | misplaced found' complaint' => exact .refusal rfl
    | ofNumeral f => cases h
    | ofVersion d => cases h
  | ofNumeral f =>
    cases e' with
    | misplaced found' complaint' => cases h
    | ofNumeral f' => cases h; exact .fault _
    | ofVersion d => cases h
  | ofVersion d =>
    cases e' with
    | misplaced found' complaint' => cases h
    | ofNumeral f => cases h
    | ofVersion d' => cases h; exact .fault _

theorem SameOutcome.of_mapError_blur {x x' : Except Stop α}
    (h : x.mapError Stop.blur = x'.mapError Stop.blur) :
    SameOutcome (x.mapError (Stop.toFault source goal))
      (x'.mapError (Stop.toFault source' goal)) := by
  cases x with
  | ok a =>
    cases x' with
    | ok a' => cases h; exact .value a
    | error e' => cases h
  | error e =>
    cases x' with
    | ok a' => cases h
    | error e' => exact .of_blur source source' (Except.error.inj h)

variable {ts ts' : List Token} (h : ts.map Token.blur = ts'.map Token.blur)
include h

theorem Read.sameOutcome_formula : SameOutcome
    ((Read.formula ts).mapError (Stop.toFault source .formula))
    ((Read.formula ts').mapError (Stop.toFault source' .formula)) := by
  apply SameOutcome.of_mapError_blur
  rw [← formula_blur, h, formula_blur]

/-- The piece of text in the complaint differs, but the kind of complaint does not. -/
theorem Read.sameOutcome_version (stop stop' : ℕ) : SameOutcome
    ((Read.version source.toList stop ts).mapError (Stop.toFault source .version))
    ((Read.version source'.toList stop' ts').mapError (Stop.toFault source' .version)) := by
  have htarget : blurred id (target ts) = blurred id (target ts') := by
    rw [← target_blur, h, target_blur]
  unfold version
  cases hx : target ts with
  | error e =>
    cases hx' : target ts' with
    | error e' =>
      rw [hx, hx'] at htarget
      exact .of_blur source source' (Except.error.inj htarget)
    | ok y' => rw [hx, hx'] at htarget; cases htarget
  | ok y =>
    cases hx' : target ts' with
    | error e' => rw [hx, hx'] at htarget; cases htarget
    | ok y' =>
      rw [hx, hx'] at htarget
      obtain ⟨t, rest⟩ := y
      obtain ⟨t', rest'⟩ := y'
      obtain ⟨rfl, hrest⟩ := Prod.mk.inj (Except.ok.inj htarget)
      cases t with
      | version v =>
        -- nothing is left of either text, or of neither
        cases rest with
        | nil =>
          obtain rfl := List.map_eq_nil_iff.1 hrest.symm
          exact .value v
        | cons k rest =>
          obtain ⟨k', us, rfl, -⟩ := List.map_eq_cons_iff.1 hrest.symm
          exact .refusal rfl
      | _ => exact .refusal rfl

end Outcome

/-! ### Texts with other white space -/

section Respaced

variable {text text' : String}

/-- Both texts are cut into the same tokens but for their blurring, or neither is cut. -/
theorem Respaced.tokenize (h : Respaced text.toList text'.toList) :
    (∃ ts ts', SemverRange.tokenize text = .ok ts ∧ SemverRange.tokenize text' = .ok ts' ∧
      ts.toList.map Token.blur = ts'.toList.map Token.blur) ∨
    ∃ e e', SemverRange.tokenize text = .error e ∧ SemverRange.tokenize text' = .error e' ∧
      e.reason.isLexical = true ∧ e'.reason.isLexical = true := by
  have hnone : Option.map Lexeme.blur none = Option.map Lexeme.blur none := rfl
  unfold SemverRange.tokenize
  cases hts : Token.scanFrom none 0 text.toList with
  | ok ts =>
    obtain ⟨ls', hscans, hls⟩ := h.exists_scans (scans_of_scanFrom hts) hnone
    obtain ⟨ts', hts', rfl⟩ := hscans.exists_scanFrom 0
    rw [hts']
    refine .inl ⟨_, _, rfl, rfl, ?_⟩
    rw [Token.map_blur, Token.map_blur, hls]
  | error s =>
    cases hts' : Token.scanFrom none 0 text'.toList with
    | ok ts' =>
      obtain ⟨ls, hscans, -⟩ := h.symm.exists_scans (scans_of_scanFrom hts') hnone
      obtain ⟨ts, hts₁, -⟩ := hscans.exists_scanFrom 0
      rw [hts] at hts₁
      cases hts₁
    | error s' => exact .inr ⟨_, _, rfl, rfl, rfl, rfl⟩

theorem Formula.sameOutcome_of_respaced (h : Respaced text.toList text'.toList) :
    SameOutcome (Formula.parse text) (Formula.parse text') := by
  unfold Formula.parse
  rcases h.tokenize with ⟨ts, ts', hts, hts', hblur⟩ | ⟨e, e', he, he', hlex, hlex'⟩
  · rw [hts, hts']
    exact Read.sameOutcome_formula text text' hblur
  · rw [he, he']
    exact .refusal (hlex.trans hlex'.symm)

theorem Version.sameOutcome_of_respaced (h : Respaced text.toList text'.toList) :
    SameOutcome (Version.parse text) (Version.parse text') := by
  unfold Version.parse
  rcases h.tokenize with ⟨ts, ts', hts, hts', hblur⟩ | ⟨e, e', he, he', hlex, hlex'⟩
  · rw [hts, hts']
    exact Read.sameOutcome_version text text' hblur ts.stop ts'.stop
  · rw [he, he']
    exact .refusal (hlex.trans hlex'.symm)

end Respaced

/-! ### White space at the two ends -/

namespace Solid

/-- Between two such texts there may be anything. -/
theorem append {cs ds : List Char} (hcs : Solid cs) (m : List Char) (hds : Solid ds) :
    Solid (cs ++ (m ++ ds)) := by
  refine ⟨by simp [hcs.ne_nil], hcs.stops_append _, ?_⟩
  rw [List.reverse_append, List.reverse_append, List.append_assoc]
  exact hds.reverse.stops_append _

theorem append_flatMap {α : Type} {cs : List Char} (hcs : Solid cs) {as : List α}
    (f : α → List Char) {g : α → List Char} (hg : ∀ a ∈ as, Solid (g a)) :
    Solid (cs ++ as.flatMap fun a => f a ++ g a) := by
  induction as generalizing cs with
  | nil => simpa using hcs
  | cons a as ih =>
    obtain ⟨ha, has⟩ := List.forall_mem_cons.1 hg
    have hstep := ih (hcs.append (f a) ha) has
    rwa [List.flatMap_cons, ← List.append_assoc]

end Solid

theorem strip_of_blank {b : List Char} (hb : Blank b) : strip b = [] := by
  have hnil : b.dropWhile isBlank = [] := by
    rw [← List.append_nil b, dropWhile_append_of_stops hb (stops_nil _)]
  rw [strip, hnil]
  rfl

/-- A text is its strip with white space around it. -/
theorem exists_strip (cs : List Char) :
    ∃ b a, cs = b ++ (strip cs ++ a) ∧ Blank b ∧ Blank a := by
  have hfront := List.takeWhile_append_dropWhile (p := isBlank) (l := cs)
  have hback := List.takeWhile_append_dropWhile (p := isBlank)
    (l := (cs.dropWhile isBlank).reverse)
  refine ⟨cs.takeWhile isBlank, ((cs.dropWhile isBlank).reverse.takeWhile isBlank).reverse,
    ?_, all_takeWhile, fun c hc => all_takeWhile c (List.mem_reverse.1 hc)⟩
  rw [strip, ← List.reverse_append, hback, List.reverse_reverse, hfront]

namespace Grammar

theorem Part.unspaced_text (p : Part) : Unspaced p.text := by
  cases p with
  | number ds => exact fun c hc => (isSolid_of_isDigit (ds.2.2 c hc)).1
  | wildcard c => exact Lexeme.unspaced_text (l := .wildcard c.1) c.2 rfl

theorem Part.text_ne_nil (p : Part) : p.text ≠ [] := by
  cases p with
  | number ds => exact ds.2.1
  | wildcard c => exact List.cons_ne_nil _ _

namespace Target

variable (t : Target)

theorem unspaced_veeText : Unspaced t.veeText := by
  unfold veeText
  cases t.vee with
  | none => exact List.forall_mem_nil _
  | some c => exact Lexeme.unspaced_text (l := .v c.1) c.2 rfl

theorem unspaced_preText : Unspaced t.preText := by
  unfold preText
  cases t.pre with
  | none => exact List.forall_mem_nil _
  | some is =>
    exact Lexeme.unspaced_text (l := .prerelease (is.1.map Subtype.val)) is.wellformed rfl

theorem unspaced_buildText : Unspaced t.buildText := by
  unfold buildText
  cases t.build with
  | none => exact List.forall_mem_nil _
  | some is => exact Lexeme.unspaced_text (l := .build (is.1.map Subtype.val)) is.wellformed rfl

/-- A target is a piece of text without white space. -/
theorem solid_text : Solid t.text := by
  have hmore : Unspaced (t.more.flatMap fun p => '.' :: p.text) := by
    refine List.forall_mem_flatMap.2 fun p _ => ?_
    exact List.forall_mem_cons.2 ⟨by decide, p.unspaced_text⟩
  have htext : Unspaced t.text := by
    simp only [Unspaced, text, List.forall_mem_append]
    exact ⟨t.unspaced_veeText, t.first.unspaced_text, hmore, t.unspaced_preText,
      t.unspaced_buildText⟩
  refine htext.solid ?_
  simp [text, t.first.text_ne_nil]

end Target

theorem Clause.solid_text (c : Clause) : Solid c.text := by
  cases c with
  | bare t => exact t.solid_text
  | compare o b t =>
    have hsign : Solid o.sign := by cases o <;> exact Unspaced.solid (by decide) (by decide)
    exact hsign.append b.1 t.solid_text
  | shorthand s b t =>
    have hsign : Solid s.sign := by cases s <;> exact Unspaced.solid (by decide) (by decide)
    exact hsign.append b.1 t.solid_text

theorem Range.solid_text (r : Range) : Solid r.text := by
  cases r with
  | all c more => exact c.solid_text.append_flatMap _ fun m _ => m.2.solid_text
  | between l before after u =>
    have htext : (between l before after u).text =
        l.text ++ ((before.1 ++ '-' :: after.1) ++ u.text) := by simp [text]
    rw [htext]
    exact l.solid_text.append _ u.solid_text

/-- More white space before and after the formula. -/
def Formula.pad (b a : Blanks) : Formula → Formula
  | blank c => blank ⟨b.1 ++ (c.1 ++ a.1), by
      simpa only [List.forall_mem_append] using ⟨b.2, c.2, a.2⟩⟩
  | ranges before r more after =>
    ranges ⟨b.1 ++ before.1, List.forall_mem_append.2 ⟨b.2, before.2⟩⟩ r more
      ⟨after.1 ++ a.1, List.forall_mem_append.2 ⟨after.2, a.2⟩⟩

namespace Formula

variable (b a : Blanks) (d : Formula)

theorem text_pad : (d.pad b a).text = b.1 ++ (d.text ++ a.1) := by
  cases d <;> simp [pad, text]

theorem denote_pad : (d.pad b a).denote = d.denote := by cases d <;> rfl

theorem numerals_pad : (d.pad b a).numerals = d.numerals := by cases d <;> rfl

/-- Between the white space at its two ends a formula is what is left when they are stripped. -/
theorem exists_pad : ∃ core b a, d = pad b a core ∧ strip d.text = core.text := by
  cases d with
  | blank c =>
    refine ⟨blank ⟨[], List.forall_mem_nil _⟩, c, ⟨[], List.forall_mem_nil _⟩, ?_, ?_⟩
    · simp [pad]
    · exact strip_of_blank c.2
  | ranges before r more after =>
    refine ⟨ranges ⟨[], List.forall_mem_nil _⟩ r more ⟨[], List.forall_mem_nil _⟩, before, after,
      by simp [pad], ?_⟩
    have hsolid : Solid (r.text ++ more.flatMap fun m =>
        (m.1.1 ++ '|' :: '|' :: m.2.1.1) ++ m.2.2.text) :=
      r.solid_text.append_flatMap _ fun m _ => m.2.2.solid_text
    simpa [text] using hsolid.strip_append before.2 after.2

end Formula

end Grammar

/-- **White space around a formula is left out.** -/
theorem Formula.parse_strip {text : String} {f : Formula} :
    Formula.parse (String.ofList (strip text.toList)) = .ok f ↔ Formula.parse text = .ok f := by
  constructor
  · intro h
    obtain ⟨d, htext, hshort, rfl⟩ := exists_derivation_of_parse h
    rw [String.toList_ofList] at htext
    obtain ⟨b, a, hpad, hb, ha⟩ := exists_strip text.toList
    rw [← d.denote_pad ⟨b, hb⟩ ⟨a, ha⟩]
    apply parse_eq_ok
    · rw [d.text_pad, htext, ← hpad]
    · rwa [d.numerals_pad]
  · intro h
    obtain ⟨d, htext, hshort, rfl⟩ := exists_derivation_of_parse h
    obtain ⟨core, b, a, rfl, hcore⟩ := d.exists_pad
    rw [core.denote_pad]
    apply parse_eq_ok
    · rw [String.toList_ofList, ← htext, hcore]
    · rwa [core.numerals_pad] at hshort

theorem Version.parse_strip {text : String} {v : Version} :
    Version.parse (String.ofList (strip text.toList)) = .ok v ↔ Version.parse text = .ok v := by
  rw [parse_eq_ok_iff_formula, parse_eq_ok_iff_formula, Formula.parse_strip]

/-- **White space matters only by its presence.**  If each run of white space in a text is replaced
by any other run, then reading it as a formula, or as a version, gives the same value, the same
fault, or a fault of syntax of the same kind.  A text without the white space at its two ends is
read if and only if the text is read, and as the same value. -/
theorem Formula.parse_respaced (text : String) :
    (∀ text' : String, Respaced text.toList text'.toList →
      SameOutcome (Formula.parse text) (Formula.parse text') ∧
      SameOutcome (Version.parse text) (Version.parse text')) ∧
    (∀ f, Formula.parse text = .ok f ↔
      Formula.parse (String.ofList (strip text.toList)) = .ok f) ∧
    ∀ v, Version.parse text = .ok v ↔
      Version.parse (String.ofList (strip text.toList)) = .ok v := by
  refine ⟨?_, fun f => parse_strip.symm, fun v => Version.parse_strip.symm⟩
  intro text' h
  exact ⟨sameOutcome_of_respaced h, Version.sameOutcome_of_respaced h⟩

/-- A range of two versions is the same whatever white space is around its dash. -/
theorem Formula.parse_respaced_dash :
    Respaced "1 - 2.0.0+b".toList "1\t-\u00a0 2.0.0+b".toList ∧
    Formula.parse "1\t-\u00a0 2.0.0+b" =
      .ok ⟨[.between (.major 1) (.version ⟨2, 0, 0, [], ["b"]⟩)]⟩ := by
  have hversion : Respaced "2.0.0+b".toList "2.0.0+b".toList :=
    .cons rfl (.cons rfl (.cons rfl (.cons rfl (.cons rfl (.cons rfl (.cons rfl .nil))))))
  have hafter : Respaced " 2.0.0+b".toList "\u00a0 2.0.0+b".toList :=
    @Respaced.blanks [' '] ['\u00a0', ' '] _ _ (by decide) (by decide) (List.all_eq_true.1 rfl)
      (List.all_eq_true.1 rfl) (stops_cons.2 rfl) (stops_cons.2 rfl) hversion
  have hrespaced : Respaced "1 - 2.0.0+b".toList "1\t-\u00a0 2.0.0+b".toList :=
    .cons rfl (@Respaced.blanks [' '] ['\t'] _ _ (by decide) (by decide) (List.all_eq_true.1 rfl)
      (List.all_eq_true.1 rfl) (stops_cons.2 rfl) (stops_cons.2 rfl) (.cons rfl hafter))
  have hparse : Formula.parse "1 - 2.0.0+b" =
      .ok ⟨[.between (.major 1) (.version ⟨2, 0, 0, [], ["b"]⟩)]⟩ := by decide +kernel
  obtain ⟨hsame, -⟩ := (parse_respaced "1 - 2.0.0+b").1 "1\t-\u00a0 2.0.0+b" hrespaced
  rw [hparse] at hsame
  refine ⟨hrespaced, ?_⟩
  generalize Formula.parse "1\t-\u00a0 2.0.0+b" = outcome at hsame
  cases hsame
  rfl

end SemverRange
