import SemverRange.Proofs.Formula.Derivation

/-!
# Why a text is refused

A text is refused at a character that starts no token, at a token that cannot stand where it
does, or at a numeral that is too long, which is then a run of digits in the text.  There is no
other way: every identifier that reaches the constructor of versions passes its checks, because
the tokens of a text have the form that the scanner asks for.

## Main definitions

* `Token.Sound` — a token that was cut out of a text.
* `Stop.Justified` — the tokens of a text may be refused so.
* `Yields` — a reading step makes something of the tokens, or refuses them with good reason.
* `Fault.Justified` — a text may be refused so.

## Main results

* `Tokens.sound_of_tokenize` — the tokens of a text are sound.
* `Read.yields_formula`, `Read.yields_version` — reading sound tokens.
* `Formula.justified_of_parse`, `Version.justified_of_parse` — **a text is refused with good
  reason**.
-/

namespace SemverRange

/-! ### Tokens of a text -/

/-- The token has the form that its kind asks for, and is a piece of the text. -/
structure Token.Sound (source : List Char) (t : Token) : Prop where
  /-- The text of the token has the form that its kind asks for. -/
  wellformed : t.lexeme.Wellformed
  /-- The token is a piece of the text. -/
  infix_source : t.lexeme.text <:+: source

/-- All the tokens are sound. -/
def SoundTokens (source : List Char) (ts : List Token) : Prop := ∀ t ∈ ts, t.Sound source

section Sound

variable {source : List Char} {t : Token} {ts : List Token}

theorem SoundTokens.head (h : SoundTokens source (t :: ts)) : t.Sound source :=
  h t List.mem_cons_self

theorem SoundTokens.tail (h : SoundTokens source (t :: ts)) : SoundTokens source ts :=
  fun u hu => h u (List.mem_cons_of_mem t hu)

end Sound

/-- A run of the scanner cuts the text into well-formed pieces. -/
theorem Scans.sound {prev : Option Lexeme} {cs : List Char} {ls : List Lexeme}
    (h : Scans prev cs ls) : ∀ l ∈ ls, l.Wellformed ∧ l.text <:+: cs := by
  -- on the run; a piece of what follows a token is a piece of the whole text
  induction h with
  | stop prev => exact List.forall_mem_nil _
  | @keep prev cs rest l ls hscan _ _ ih =>
    obtain ⟨-, rfl⟩ := Lexeme.text_scan hscan
    intro k hk
    rcases List.mem_cons.1 hk with rfl | hk
    · exact ⟨Lexeme.wellformed_scan hscan, (List.prefix_append _ rest).isInfix⟩
    · obtain ⟨hwf, hin⟩ := ih k hk
      exact ⟨hwf, hin.trans (List.suffix_append l.text rest).isInfix⟩
  | @drop prev cs rest l ls hscan _ _ ih =>
    obtain ⟨-, rfl⟩ := Lexeme.text_scan hscan
    intro k hk
    obtain ⟨hwf, hin⟩ := ih k hk
    exact ⟨hwf, hin.trans (List.suffix_append l.text rest).isInfix⟩

/-- The tokens of a text are sound. -/
theorem Tokens.sound_of_tokenize {text : String} {ts : Tokens} (h : tokenize text = .ok ts) :
    SoundTokens text.toList ts.toList := by
  unfold tokenize at h
  split at h
  · next ts' hts =>
    cases h
    intro t ht
    obtain ⟨hwf, hin⟩ := (scans_of_scanFrom hts).sound t.lexeme (List.mem_map_of_mem ht)
    exact ⟨hwf, hin⟩
  · cases h

/-- Each of the identifiers is a piece of the text that they are joined to. -/
theorem infix_intercalate {ids : List (List Char)} {i : List Char} (hi : i ∈ ids) :
    i <:+: ['.'].intercalate ids := by
  induction ids with
  | nil => cases hi
  | cons j ids ih =>
    cases ids with
    | nil =>
      obtain rfl := List.mem_singleton.1 hi
      simp [List.intercalate]
    | cons k ids =>
      have hcons : ['.'].intercalate (j :: k :: ids) =
          j ++ '.' :: ['.'].intercalate (k :: ids) := by
        simp [List.intercalate]
      rw [hcons]
      rcases List.mem_cons.1 hi with rfl | hi
      · exact (List.prefix_append i _).isInfix
      · have htail := (List.suffix_cons '.' (['.'].intercalate (k :: ids))).isInfix
        exact ((ih hi).trans htail).trans (List.suffix_append j _).isInfix

/-! ### Good reasons to stop -/

/-- The tokens of the text may be refused so: a token may be misplaced, and a numeral may be too
long if there is one so long in the text.  That parts make no version is no reason, since it does
not happen. -/
def Stop.Justified (source : List Char) : Stop → Prop
  | .misplaced _ _ => True
  | .ofNumeral (.tooLongToRead n) =>
    ∃ ds : List Char, ds.length = n ∧ 4300 < n ∧ (∀ c ∈ ds, c.isDigit = true) ∧
      ds <:+: source
  | .ofNumeral .tooLongToWrite => False
  | .ofVersion _ => False

/-- The step makes something with the property, or it stops with good reason. -/
def Yields {α : Type} (source : List Char) (P : α → Prop) : Except Stop α → Prop
  | .ok a => P a
  | .error s => s.Justified source

section Yields

variable {α β : Type} {source : List Char} {P : α → Prop} {Q : β → Prop}

theorem yields_misplaced (found : Option Token) (complaint : Complaint) :
    Yields source P (throw (.misplaced found complaint)) := trivial

/-- One step after another. -/
theorem Yields.bind {x : Except Stop α} {f : α → Except Stop β} (hx : Yields source P x)
    (hf : ∀ a, P a → Yields source Q (f a)) : Yields source Q (x >>= f) := by
  cases x with
  | error s => exact hx
  | ok a => exact hf a hx

/-- One step for each element of a list. -/
theorem Yields.mapM {as : List β} {f : β → Except Stop α} (h : ∀ a ∈ as, Yields source P (f a)) :
    Yields source (fun bs => ∀ b ∈ bs, P b) (as.mapM f) := by
  induction as with
  | nil => exact List.forall_mem_nil _
  | cons a as ih =>
    rw [List.mapM_cons]
    apply Yields.bind (h a List.mem_cons_self)
    intro b hb
    apply Yields.bind (ih fun a' ha' => h a' (List.mem_cons_of_mem a ha'))
    intro bs hbs
    exact List.forall_mem_cons.2 ⟨hb, hbs⟩

end Yields

/-! ### Reading step by step -/

namespace Read

variable {source : List Char} {ts : List Token}

/-- The tokens that are left after a step are sound. -/
abbrev SoundRest (source : List Char) {α : Type} (x : α × List Token) : Prop :=
  SoundTokens source x.2

theorem yields_numeral {ds : List Char} (hds : ∀ c ∈ ds, c.isDigit = true)
    (hin : ds <:+: source) : Yields source (fun _ => True) (numeral ds) := by
  unfold numeral Numeral.read
  split
  · exact trivial
  · next hlen => exact ⟨ds, rfl, Nat.lt_of_not_le hlen, hds, hin⟩

theorem yields_part (hts : SoundTokens source ts) : Yields source (SoundRest source) (part ts) := by
  unfold part
  split
  · next t ts =>
    obtain ⟨hwf, hin⟩ := hts.head
    split
    · next ds hlexeme =>
      rw [hlexeme] at hwf hin
      apply (yields_numeral hwf.2 hin).bind
      intro n _
      exact hts.tail
    · exact hts.tail
    · exact yields_misplaced ..
  · exact yields_misplaced ..

theorem yields_parts (n : ℕ) (last : Token) (hts : SoundTokens source ts) :
    Yields source (SoundRest source) (parts n last ts) := by
  induction n generalizing last ts with
  | zero => exact hts
  | succ n ih =>
    cases ts with
    | nil => exact hts
    | cons t ts =>
      rw [parts]
      split
      · apply (yields_part hts.tail).bind
        rintro ⟨⟨p, last⟩, ts⟩ hts
        apply (ih last hts).bind
        rintro ⟨⟨ps, last⟩, ts⟩ hts
        exact hts
      · exact hts

/-- No identifier is empty. -/
theorem yields_identifier {i : List Char} (hne : i ≠ []) (hin : i <:+: source) :
    Yields source (fun x => x ≠ .alpha "") (identifier i) := by
  unfold identifier
  split
  · next hdigits =>
    apply (yields_numeral (List.all_eq_true.1 hdigits) hin).bind
    intro n _
    exact nofun
  · intro h
    exact hne (String.ofList_eq_empty_iff.1 (Identifier.alpha.inj h))

theorem yields_prerelease (hts : SoundTokens source ts) :
    Yields source (fun x => .alpha "" ∉ x.1 ∧ SoundTokens source x.2) (prerelease ts) := by
  unfold prerelease
  split
  · next ids pos ts =>
    obtain ⟨⟨-, hids⟩, hin⟩ := hts.head
    have hjoined : ['.'].intercalate ids <:+: source :=
      (List.suffix_cons '-' (['.'].intercalate ids)).isInfix.trans hin
    have hidentifiers :
        Yields source (fun is => ∀ i ∈ is, i ≠ .alpha "") (ids.mapM identifier) := by
      apply Yields.mapM
      intro i hi
      exact yields_identifier (hids i hi).1 ((infix_intercalate hi).trans hjoined)
    apply hidentifiers.bind
    intro is his
    exact ⟨fun h => his _ h rfl, hts.tail⟩
  · exact ⟨List.not_mem_nil, hts⟩

theorem empty_notMem_build (hts : SoundTokens source ts) :
    "" ∉ (build ts).1 ∧ SoundTokens source (build ts).2 := by
  unfold build
  split
  · next ids pos ts =>
    obtain ⟨⟨-, hids⟩, -⟩ := hts.head
    refine ⟨?_, hts.tail⟩
    intro hmem
    obtain ⟨i, hi, hempty⟩ := List.mem_map.1 hmem
    exact (hids i hi).1 (String.ofList_eq_empty_iff.1 hempty)
  · exact ⟨List.not_mem_nil, hts⟩

/-- The constructor of versions accepts all parts that reach it. -/
theorem yields_finish (ps : List Part) (last : Token) (hts : SoundTokens source ts) :
    Yields source (SoundRest source) (finish ps last ts) := by
  unfold finish
  split
  · exact yields_misplaced ..
  · split
    · next major minor patch _ =>
      apply (yields_prerelease hts).bind
      rintro ⟨pre, ts⟩ ⟨hpre, hts⟩
      obtain ⟨hbuild, hrest⟩ := empty_notMem_build hts
      show Yields source (SoundRest source)
        ((Version.ofParts? major minor patch pre (build ts).1).mapError Stop.ofVersion >>= fun v =>
          pure (Target.version v, (build ts).2))
      rw [ofParts?_natCast hpre hbuild]
      exact hrest
    · split
      · exact yields_misplaced ..
      · exact hts

theorem sound_skipV (hts : SoundTokens source ts) : SoundTokens source (skipV ts) := by
  unfold skipV
  split
  · exact hts.tail
  · exact hts

theorem yields_target (hts : SoundTokens source ts) :
    Yields source (SoundRest source) (target ts) := by
  apply (yields_part (sound_skipV hts)).bind
  rintro ⟨⟨p, last⟩, ts⟩ hts
  apply (yields_parts 2 last hts).bind
  rintro ⟨⟨ps, last⟩, ts⟩ hts
  exact yields_finish (p :: ps) last hts

theorem yields_wrapTarget {α : Type} (f : Target → α) (hts : SoundTokens source ts) :
    Yields source (SoundRest source)
      (do let (t, ts) ← target ts; pure (f t, ts) : Except Stop (α × List Token)) := by
  apply (yields_target hts).bind
  rintro ⟨t, ts⟩ hts
  exact hts

theorem yields_clause (hts : SoundTokens source ts) :
    Yields source (SoundRest source) (clause ts) := by
  unfold clause
  split
  · exact yields_wrapTarget _ hts.tail
  · exact yields_wrapTarget _ hts.tail
  · exact yields_wrapTarget _ hts

theorem yields_clauses (hts : SoundTokens source ts) :
    Yields source (SoundRest source) (clauses ts) := by
  -- along the recursion of the function; each clause is followed by shorter tokens
  induction ts using clauses.induct with
  | case1 b pos ts e he =>
    have hclause := yields_clause hts.tail
    rw [he] at hclause
    rw [clauses_and, he]
    exact hclause
  | case2 b pos ts c rest hc ih =>
    have hclause := yields_clause hts.tail
    rw [hc] at hclause
    rw [clauses_and, hc]
    apply (ih hclause).bind
    rintro ⟨cs, rest⟩ hrest
    exact hrest
  | case3 ts hno =>
    rw [clauses]
    · exact hts
    · exact hno

theorem yields_rangeAfter (t : Target) (hts : SoundTokens source ts) :
    Yields source (SoundRest source) (rangeAfter t ts) := by
  unfold rangeAfter
  split
  · exact yields_wrapTarget _ hts.tail
  · apply (yields_clauses hts).bind
    rintro ⟨cs, ts⟩ hts
    exact hts

theorem yields_range (hts : SoundTokens source ts) :
    Yields source (SoundRest source) (range ts) := by
  unfold range
  split
  · apply (yields_clause hts).bind
    rintro ⟨c, ts⟩ hts
    apply (yields_clauses hts).bind
    rintro ⟨cs, ts⟩ hts
    exact hts
  · apply (yields_target hts).bind
    rintro ⟨t, ts⟩ hts
    exact yields_rangeAfter t hts

theorem yields_ranges (hts : SoundTokens source ts) :
    Yields source (SoundRest source) (ranges ts) := by
  have hrange := yields_range hts
  induction ts using ranges.induct with
  | case1 ts e he =>
    rw [he] at hrange
    rw [ranges_of_error he]
    exact hrange
  | case2 ts r b pos rest hr ih =>
    rw [hr] at hrange
    rw [ranges_of_or hr]
    apply (ih hrange.tail (yields_range hrange.tail)).bind
    rintro ⟨rs, rest⟩ hrest
    exact hrest
  | case3 ts r rest hno hr =>
    rw [hr] at hrange
    rw [ranges_of_not_or hr hno]
    exact hrange

theorem yields_done : Yields source (fun _ => True) (done ts) := by
  unfold done
  split
  · exact trivial
  · exact yields_misplaced ..

/-- Sound tokens make a formula, or are refused with good reason. -/
theorem yields_formula (hts : SoundTokens source ts) :
    Yields source (fun _ => True) (formula ts) := by
  unfold formula
  split
  · exact trivial
  · apply (yields_ranges hts).bind
    rintro ⟨rs, rest⟩ _
    apply yields_done.bind
    intro _ _
    exact trivial

/-- Sound tokens make a version, or are refused with good reason. -/
theorem yields_version (cs : List Char) (stop : ℕ) (hts : SoundTokens source ts) :
    Yields source (fun _ => True) (version cs stop ts) := by
  apply (yields_target hts).bind
  rintro ⟨t, rest⟩ _
  cases t with
  | version v =>
    apply yields_done.bind
    intro _ _
    exact trivial
  | _ => exact yields_misplaced ..

end Read

/-! ### Texts that are refused -/

/-- The text may be refused so, when it is read as `goal`: the whole text is named, the message
starts with it, the reason is lexical if and only if the text has no tokens, and any other reason
starts with what the text was expected not to be. -/
structure SyntaxFault.Justified (goal : Goal) (text : String) (f : SyntaxFault) : Prop where
  /-- The whole text is named. -/
  source : f.source = text
  /-- The message names the text and the reason. -/
  message : f.message = "error parsing `" ++ text ++ "`: " ++ f.reason.describe
  /-- The reason is lexical if and only if the text has no tokens. -/
  lexical : f.reason.isLexical = true ↔ ∃ e, tokenize text = .error e
  /-- Any other reason starts with what the text was expected not to be. -/
  structural : f.reason.isLexical = false → ∃ rest, f.reason.describe =
    (match goal with
      | .formula => "invalid formula"
      | .version => "invalid version") ++ rest

/-- The text may be refused so, when it is read as `goal`. -/
def Fault.Justified (goal : Goal) (text : String) : Fault → Prop
  | .ofSyntax f => f.Justified goal text
  | .ofNumeral f => (Stop.ofNumeral f).Justified text.toList
  | _ => False

section Refused

variable {goal : Goal} {text : String}

theorem justified_of_tokenize {e : SyntaxFault} (h : tokenize text = .error e) :
    e.Justified goal text := by
  obtain ⟨s, rfl⟩ : ∃ s : Token.Stray, e = ⟨text, .stray s.char s.pos⟩ := by
    unfold tokenize at h
    split at h
    · cases h
    · next s _ =>
      cases h
      exact ⟨s, rfl⟩
  refine ⟨rfl, rfl, ⟨fun _ => ⟨_, h⟩, fun _ => rfl⟩, ?_⟩
  rintro ⟨⟩

theorem Reason.describe_misplaced (goal : Goal) (place : Place) (complaint : Complaint) :
    (misplaced goal place complaint).describe =
      goal.refusal ++ (": unexpected " ++ (place.describe ++ complaint.describe)) := by
  show goal.refusal ++ ": unexpected " ++ place.describe ++ complaint.describe = _
  rw [String.append_assoc, String.append_assoc]

theorem Stop.Justified.toFault {s : Stop} (hs : s.Justified text.toList) {ts : Tokens}
    (hts : tokenize text = .ok ts) : (s.toFault text goal).Justified goal text := by
  cases s with
  | misplaced found complaint =>
    refine ⟨rfl, rfl, ⟨?_, ?_⟩, ?_⟩
    · rintro ⟨⟩
    · rintro ⟨e, he⟩
      rw [hts] at he
      cases he
    · intro _
      exact ⟨_, Reason.describe_misplaced ..⟩
  | ofNumeral f => exact hs
  | ofVersion d => exact hs

/-- What is refused after the tokens are cut is refused with good reason, if reading the tokens
stops with good reason. -/
theorem justified_of_read {α : Type} {read : Tokens → Except Stop α}
    (hread : ∀ ts, tokenize text = .ok ts → Yields text.toList (fun _ => True) (read ts))
    {e : Fault} (h : ((tokenize text).mapError Fault.ofSyntax >>= fun ts =>
      (read ts).mapError (Stop.toFault text goal)) = .error e) : e.Justified goal text := by
  cases hts : tokenize text with
  | error f =>
    rw [hts] at h
    cases h
    exact justified_of_tokenize hts
  | ok ts =>
    have hyields := hread ts hts
    cases hr : read ts with
    | ok a =>
      rw [hts] at h
      simp [Except.mapError, bind, Except.bind, hr] at h
    | error s =>
      rw [hr] at hyields
      rw [hts] at h
      simp only [Except.mapError, bind, Except.bind, hr] at h
      cases h
      exact hyields.toFault hts

/-- A text that is read as a formula is refused with good reason only. -/
theorem Formula.justified_of_parse {e : Fault} (h : Formula.parse text = .error e) :
    e.Justified .formula text :=
  justified_of_read (fun _ hts => Read.yields_formula (Tokens.sound_of_tokenize hts)) h

/-- A text that is read as a version is refused with good reason only. -/
theorem Version.justified_of_parse {e : Fault} (h : Version.parse text = .error e) :
    e.Justified .version text :=
  justified_of_read (fun ts hts => Read.yields_version text.toList ts.stop
    (Tokens.sound_of_tokenize hts)) h

end Refused

end SemverRange
