import SemverRange.Proofs.Formula.Reading

/-!
# Derivations from what is read

Whatever is read has a derivation: the reading functions take the tokens one after the other,
each token is a piece of the text, and the white space between the pieces is where the grammar
has room for it.

## Main definitions

* `Continues cs ls` — the text `cs`, in which a target or a clause has just ended, is cut into
  the tokens `ls`.
* `Covers prev cs text ls` — after the token `prev` and white space that is dropped, `text` is
  the head of `cs`, and what follows is cut into `ls`.

## Main results

* `Scans.exists_of_cons` — the first token is at the head of the text, but for white space.
* `Grammar.Formula.exists_derivation` — a formula that is read has a derivation.
-/

namespace SemverRange

/-! ### Tokens and the text -/

theorem Scans.ne_nil {prev : Option Lexeme} {cs : List Char} {l : Lexeme} {ls : List Lexeme}
    (h : Scans prev cs (l :: ls)) : cs ≠ [] := by
  rintro rfl
  cases h with
  | keep hscan => exact absurd (Lexeme.length_scan hscan) (Nat.not_lt_zero _)
  | drop hscan => exact absurd (Lexeme.length_scan hscan) (Nat.not_lt_zero _)

/-- Only white space is dropped, before a token only if the token before takes it up. -/
theorem blanks_of_isDropped {prev : Option Lexeme} {cs rest : List Char} {l : Lexeme}
    (hscan : Lexeme.scan prev cs = some (l, rest)) (h : Token.isDropped prev l rest = true) :
    (∃ b, (∀ c ∈ b, isBlank c = true) ∧ b ++ rest = cs) ∧
      (rest ≠ [] → prev.all Lexeme.absorbsBlanks = true) := by
  rw [Token.isDropped, Bool.and_eq_true, Bool.or_eq_true] at h
  obtain ⟨hand, hprev⟩ := h
  constructor
  · cases l with
    | and b => exact ⟨b, (Lexeme.wellformed_scan hscan).2, (Lexeme.text_scan hscan).2⟩
    | _ => cases hand
  · intro hne
    rcases hprev with hprev | hempty
    · exact hprev
    · exact absurd (List.isEmpty_iff.1 hempty) hne

/-- The first token is at the head of the text, but for white space that is dropped, which there
is none of after a token that does not take it up. -/
theorem Scans.exists_of_cons {prev : Option Lexeme} {cs : List Char} {l : Lexeme}
    {ls : List Lexeme} (h : Scans prev cs (l :: ls)) :
    ∃ b rest, (∀ c ∈ b, isBlank c = true) ∧
      (prev.all Lexeme.absorbsBlanks = false → b = []) ∧ cs = b ++ (l.text ++ rest) ∧
      l.Wellformed ∧ Scans (some l) rest ls := by
  generalize hks : l :: ls = ks at h
  induction h with
  | stop prev => cases hks
  | @keep prev cs rest k ks hscan _ hrest =>
    cases hks
    exact ⟨[], rest, by simp, fun _ => rfl, (Lexeme.text_scan hscan).2.symm,
      Lexeme.wellformed_scan hscan, hrest⟩
  | @drop prev cs rest k ks hscan hdrop hrest ih =>
    -- what is dropped now stands before what is dropped later
    obtain ⟨b, rest', hb, -, hrest', hwf, hls⟩ := ih hks
    obtain ⟨⟨a, ha, rfl⟩, hprev⟩ := blanks_of_isDropped hscan hdrop
    subst hks
    refine ⟨a ++ b, rest', List.forall_mem_append.2 ⟨ha, hb⟩, fun hno => ?_, ?_, hwf, hls⟩
    · exact absurd (hprev hrest.ne_nil) (Bool.eq_false_iff.1 hno)
    · rw [hrest', List.append_assoc]

/-- Where no token is left, there is only white space. -/
theorem Scans.blanks_of_nil {prev : Option Lexeme} {cs : List Char} (h : Scans prev cs []) :
    ∀ c ∈ cs, isBlank c = true := by
  generalize hks : ([] : List Lexeme) = ks at h
  induction h with
  | stop prev => simp
  | keep => cases hks
  | drop hscan hdrop _ ih =>
    obtain ⟨⟨a, ha, rfl⟩, -⟩ := blanks_of_isDropped hscan hdrop
    exact List.forall_mem_append.2 ⟨ha, ih hks⟩

/-- The text, in which a target or a clause has just ended, is cut into the tokens. -/
def Continues (cs : List Char) (ls : List Lexeme) : Prop :=
  ∃ l : Lexeme, l.absorbsBlanks = false ∧ Scans (some l) cs ls

theorem Continues.exists_of_cons {cs : List Char} {l : Lexeme} {ls : List Lexeme}
    (h : Continues cs (l :: ls)) :
    ∃ rest, cs = l.text ++ rest ∧ l.Wellformed ∧ Scans (some l) rest ls := by
  obtain ⟨k, hk, hscans⟩ := h
  obtain ⟨b, rest, -, hb, rfl, hwf, hrest⟩ := hscans.exists_of_cons
  obtain rfl := hb hk
  exact ⟨rest, rfl, hwf, hrest⟩

/-- After the token `prev` and white space that is dropped, `text` is the head of `cs`, and what
follows is cut into `ls`. -/
def Covers (prev : Option Lexeme) (cs text : List Char) (ls : List Lexeme) : Prop :=
  ∃ b rest, (∀ c ∈ b, isBlank c = true) ∧ (prev.all Lexeme.absorbsBlanks = false → b = []) ∧
    cs = b ++ (text ++ rest) ∧ Continues rest ls

namespace Grammar

/-! ### Targets -/

theorem exists_part_of_read {prev : Option Lexeme} {cs : List Char} {ts rest : List Token}
    {p : SemverRange.Part} {last : Token} (hs : Scans prev cs (ts.map Token.lexeme))
    (h : Read.part ts = .ok ((p, last), rest)) :
    ∃ q : Part, Covers prev cs q.text (rest.map Token.lexeme) ∧ q.denote = p ∧
      Short q.digits?.toList := by
  obtain ⟨q, pos, rfl⟩ : ∃ (q : Part) (pos : ℕ), ts = ⟨q.lexeme, pos⟩ :: rest := by
    cases ts with
    | nil => cases h
    | cons t ts =>
      obtain ⟨l, pos⟩ := t
      obtain ⟨-, -, -, -, -, hwf, -⟩ := hs.exists_of_cons
      cases l with
      | num ds =>
        obtain ⟨n, -, h⟩ := bind_eq_ok h
        cases h
        exact ⟨.number ⟨ds, hwf⟩, pos, rfl⟩
      | wildcard c =>
        cases h
        exact ⟨.wildcard ⟨c, hwf⟩, pos, rfl⟩
      | _ => cases h
  obtain ⟨hq, hshort⟩ := Read.part_eq_ok_iff.1 h
  cases hq
  obtain ⟨b, cs', hb, hprev, rfl, -, hrest⟩ := hs.exists_of_cons
  refine ⟨q, ⟨b, cs', hb, hprev, ?_, q.lexeme, q.absorbsBlanks_lexeme, hrest⟩, rfl, hshort⟩
  cases q <;> rfl

/-- Further parts that are read, each with the dot before it. -/
theorem exists_parts_of_read {n : ℕ} {cs : List Char} {last last' : Token} {ts rest : List Token}
    {ps : List SemverRange.Part} (hs : Continues cs (ts.map Token.lexeme))
    (h : Read.parts n last ts = .ok ((ps, last'), rest)) :
    ∃ (more : List Part) (cs' : List Char), more.length ≤ n ∧
      cs = more.flatMap (fun q => '.' :: q.text) ++ cs' ∧ more.map Part.denote = ps ∧
      (∀ q ∈ more, Short q.digits?.toList) ∧ Continues cs' (rest.map Token.lexeme) := by
  induction n generalizing cs last ts ps with
  | zero =>
    cases h
    exact ⟨[], cs, Nat.le_refl 0, rfl, rfl, by simp, hs⟩
  | succ n ih =>
    cases ts with
    | nil =>
      cases h
      exact ⟨[], cs, Nat.zero_le _, rfl, rfl, by simp, hs⟩
    | cons t ts =>
      simp only [Read.parts] at h
      split at h
      · next hdot =>
        obtain ⟨⟨⟨p, last₁⟩, ts₁⟩, hpart, h⟩ := bind_eq_ok h
        obtain ⟨⟨⟨ps', last₂⟩, ts₂⟩, hparts, h⟩ := bind_eq_ok h
        cases h
        rw [List.map_cons, hdot] at hs
        obtain ⟨cs₁, rfl, -, hs₁⟩ := hs.exists_of_cons
        -- after a dot no white space is dropped
        obtain ⟨q, ⟨b, cs₂, -, hb, rfl, hs₂⟩, rfl, hq⟩ := exists_part_of_read hs₁ hpart
        obtain rfl := hb rfl
        obtain ⟨more, cs', hlen, rfl, rfl, hmore, hrest⟩ := ih hs₂ hparts
        refine ⟨q :: more, cs', Nat.succ_le_succ hlen, ?_, rfl, List.forall_mem_cons.2 ⟨hq, hmore⟩,
          hrest⟩
        simp [Lexeme.text]
      · cases h
        exact ⟨[], cs, Nat.zero_le _, rfl, rfl, by simp, hs⟩

/-- A list of identifiers of the right form. -/
theorem exists_idents {ids : List (List Char)}
    (h : ids ≠ [] ∧ ∀ i ∈ ids, i ≠ [] ∧ ∀ c ∈ i, isIdentifierChar c = true) :
    ∃ is : Idents, is.1.map Subtype.val = ids := by
  obtain ⟨hne, hids⟩ := h
  have hmap : (ids.attachWith _ hids).map Subtype.val = ids := List.attachWith_map_subtype_val hids
  refine ⟨⟨ids.attachWith _ hids, fun hnil => hne ?_⟩, hmap⟩
  rw [← hmap, hnil]
  rfl

theorem exists_pre_of_read {cs : List Char} {ts rest : List Token} {is : List Identifier}
    (hs : Continues cs (ts.map Token.lexeme)) (h : Read.prerelease ts = .ok (is, rest)) :
    ∃ (pre : Option Idents) (cs' : List Char),
      cs = (pre.elim [] fun is => '-' :: is.text) ++ cs' ∧
      (pre.elim [] fun is => is.1.map Ident.denote) = is ∧
      (Short (pre.elim [] fun is =>
        (is.1.map Subtype.val).filter fun i => i.all Char.isDigit)) ∧
      Continues cs' (rest.map Token.lexeme) := by
  unfold Read.prerelease at h
  split at h
  · next ids pos ts =>
    obtain ⟨xs, hxs, h⟩ := bind_eq_ok h
    cases h
    obtain ⟨cs', rfl, hwf, hs'⟩ := hs.exists_of_cons
    obtain ⟨is, rfl⟩ := exists_idents hwf
    obtain ⟨rfl, hshort⟩ := Read.identifiers_eq_ok_iff.1 hxs
    exact ⟨some is, cs', rfl, rfl, hshort, _, rfl, hs'⟩
  · cases h
    exact ⟨none, cs, rfl, rfl, short_nil, hs⟩

theorem exists_build_of_read {cs : List Char} {ts rest : List Token} {data : List String}
    (hs : Continues cs (ts.map Token.lexeme)) (h : Read.build ts = (data, rest)) :
    ∃ (build : Option Idents) (cs' : List Char),
      cs = (build.elim [] fun is => '+' :: is.text) ++ cs' ∧
      (build.elim [] fun is => is.1.map fun i => String.ofList i.1) = data ∧
      Continues cs' (rest.map Token.lexeme) := by
  unfold Read.build at h
  split at h
  · next ids pos ts =>
    cases h
    obtain ⟨cs', rfl, hwf, hs'⟩ := hs.exists_of_cons
    obtain ⟨is, rfl⟩ := exists_idents hwf
    exact ⟨some is, cs', rfl, by simp, _, rfl, hs'⟩
  · cases h
    exact ⟨none, cs, rfl, rfl, hs⟩

theorem exists_of_finish {cs : List Char} {ts rest : List Token} {last : Token}
    {t' : SemverRange.Target} {first : Part} {more : List Part} (vee : Option Vee)
    (hlen : more.length ≤ 2) (hshort : ∀ p ∈ first :: more, Short p.digits?.toList)
    (hs : Continues cs (ts.map Token.lexeme))
    (h : Read.finish ((first :: more).map Part.denote) last ts = .ok (t', rest)) :
    ∃ (t : Target) (cs' : List Char), (t.vee = vee ∧ t.first = first ∧ t.more = more) ∧
      cs = t.preText ++ (t.buildText ++ cs') ∧ t.denote = t' ∧ Short t.numerals ∧
      Continues cs' (rest.map Token.lexeme) := by
  have hparts : Short ((first :: more).filterMap Part.digits?) := by
    intro ds hds
    obtain ⟨p, hp, hds⟩ := List.mem_filterMap.1 hds
    exact hshort p hp ds (Option.mem_toList.2 hds)
  have hord : SemverRange.Part.numberAfterWildcard ((first :: more).map Part.denote) = false := by
    rw [Bool.eq_false_iff]
    intro hord
    rw [Read.finish, if_pos hord] at h
    cases h
  have hordered := (numberAfterWildcard_map_denote _).1 hord
  -- either three numbers, after which something may be attached, or a pattern
  by_cases hlen₃ : ((first :: more).filterMap Part.value?).length = 3
  · have hthree : more.length = 2 ∧ ∀ p ∈ first :: more, p.IsNumber := by
      have hle := List.length_filterMap_le Part.value? (first :: more)
      rw [List.length_cons] at hle
      have hmore : more.length = 2 := by omega
      refine ⟨hmore, (length_filterMap_value?_iff _).1 ?_⟩
      rw [hlen₃, List.length_cons, hmore]
    obtain ⟨major, minor, patch, hns⟩ := List.length_eq_three.1 hlen₃
    rw [Read.finish, if_neg (Bool.eq_false_iff.1 hord), filterMap_denote, hns] at h
    obtain ⟨⟨is, ts₁⟩, hpre, h⟩ := bind_eq_ok h
    rcases hbuild : Read.build ts₁ with ⟨data, ts₂⟩
    simp only [hbuild] at h
    obtain ⟨v, hv, h⟩ := bind_eq_ok h
    cases h
    obtain ⟨pre, cs₁, rfl, rfl, hids, hs₁⟩ := exists_pre_of_read hs hpre
    obtain ⟨build, cs', rfl, rfl, hs'⟩ := exists_build_of_read hs₁ hbuild
    rw [Read.ofParts?_natCast (alpha_empty_notMem pre) (empty_notMem build)] at hv
    cases hv
    refine ⟨⟨vee, first, more, pre, build, hlen, hordered, fun _ => hthree⟩, cs', ⟨rfl, rfl, rfl⟩,
      rfl, ?_, short_append.2 ⟨hparts, hids⟩, hs'⟩
    rw [Target.denote, hns]
  · rw [Read.finish_of_length_ne hord (by rwa [filterMap_denote])] at h
    split at h
    · cases h
    · cases h
      let t : Target := ⟨vee, first, more, none, none, hlen, hordered, by simp⟩
      refine ⟨t, cs, ⟨rfl, rfl, rfl⟩, rfl, ?_, short_append.2 ⟨hparts, short_nil⟩, hs⟩
      rw [filterMap_denote, t.denote_of_length_ne hlen₃]

/-- **A target that is read has a derivation.** -/
theorem exists_target_of_read {prev : Option Lexeme} {cs : List Char} {ts rest : List Token}
    {t' : SemverRange.Target} (hs : Scans prev cs (ts.map Token.lexeme))
    (h : Read.target ts = .ok (t', rest)) :
    ∃ t : Target, Covers prev cs t.text (rest.map Token.lexeme) ∧ t.denote = t' ∧
      Short t.numerals := by
  obtain ⟨⟨⟨p, last₁⟩, ts₁⟩, hpart, h⟩ := bind_eq_ok h
  obtain ⟨⟨⟨ps, last₂⟩, ts₂⟩, hparts, h⟩ := bind_eq_ok h
  have hfirst : ∃ (vee : Option Vee) (first : Part),
      Covers prev cs ((vee.elim [] fun c => [c.1]) ++ first.text) (ts₁.map Token.lexeme) ∧
      first.denote = p ∧ Short first.digits?.toList := by
    unfold Read.skipV at hpart
    split at hpart
    · next c pos ts =>
      obtain ⟨b, cs₁, hb, hprev, rfl, hwf, hs₁⟩ := hs.exists_of_cons
      obtain ⟨first, ⟨b', cs₂, -, hb', rfl, hs₂⟩, hp, hq⟩ := exists_part_of_read hs₁ hpart
      obtain rfl := hb' rfl
      exact ⟨some ⟨c, hwf⟩, first, ⟨b, cs₂, hb, hprev, rfl, hs₂⟩, hp, hq⟩
    · obtain ⟨first, hcov, hp, hq⟩ := exists_part_of_read hs hpart
      exact ⟨none, first, hcov, hp, hq⟩
  obtain ⟨vee, first, ⟨b, cs₁, hb, hprev, rfl, hs₁⟩, rfl, hq⟩ := hfirst
  obtain ⟨more, cs₂, hlen, rfl, rfl, hmore, hs₂⟩ := exists_parts_of_read hs₁ hparts
  obtain ⟨t, cs₃, ⟨rfl, rfl, rfl⟩, rfl, hden, hshort, hs₃⟩ :=
    exists_of_finish vee hlen (List.forall_mem_cons.2 ⟨hq, hmore⟩) hs₂ h
  refine ⟨t, ⟨b, cs₃, hb, hprev, ?_, hs₃⟩, hden, hshort⟩
  simp only [Target.text, Target.veeText, List.append_assoc]

/-! ### Clauses and ranges -/

/-- A target that is read after a sign, with the white space between the two. -/
theorem exists_signed_of_read {prev : Option Lexeme} {cs : List Char} {l : Lexeme}
    {ts rest : List Token} {t' : SemverRange.Target}
    (hs : Scans prev cs (l :: ts.map Token.lexeme)) (h : Read.target ts = .ok (t', rest)) :
    ∃ (b : Blanks) (t : Target),
      Covers prev cs (l.text ++ (b.1 ++ t.text)) (rest.map Token.lexeme) ∧ t.denote = t' ∧
        Short t.numerals := by
  obtain ⟨a, cs₁, ha, hprev, rfl, -, hs₁⟩ := hs.exists_of_cons
  obtain ⟨t, ⟨b, cs₂, hb, -, rfl, hs₂⟩, hden, hshort⟩ := exists_target_of_read hs₁ h
  refine ⟨⟨b, hb⟩, t, ⟨a, cs₂, ha, hprev, ?_, hs₂⟩, hden, hshort⟩
  simp only [List.append_assoc]

theorem exists_clause_of_read {prev : Option Lexeme} {cs : List Char} {ts rest : List Token}
    {c' : SemverRange.Clause} (hs : Scans prev cs (ts.map Token.lexeme))
    (h : Read.clause ts = .ok (c', rest)) :
    ∃ c : Clause, Covers prev cs c.text (rest.map Token.lexeme) ∧ c.denote = c' ∧
      Short c.target.numerals := by
  unfold Read.clause at h
  split at h
  · next o pos ts =>
    obtain ⟨⟨t', ts'⟩, ht, h⟩ := bind_eq_ok h
    cases h
    obtain ⟨b, t, hcov, rfl, hshort⟩ := exists_signed_of_read hs ht
    exact ⟨.compare o b t, hcov, rfl, hshort⟩
  · next s pos ts =>
    obtain ⟨⟨t', ts'⟩, ht, h⟩ := bind_eq_ok h
    cases h
    obtain ⟨b, t, hcov, rfl, hshort⟩ := exists_signed_of_read hs ht
    exact ⟨.shorthand s b t, hcov, rfl, hshort⟩
  · obtain ⟨⟨t', ts'⟩, ht, h⟩ := bind_eq_ok h
    cases h
    obtain ⟨t, hcov, rfl, hshort⟩ := exists_target_of_read hs ht
    exact ⟨.bare t, hcov, rfl, hshort⟩

/-- Further clauses that are read, each with the white space before it. -/
theorem exists_clauses_of_read {cs : List Char} {ts rest : List Token}
    {cl : List SemverRange.Clause} (hs : Continues cs (ts.map Token.lexeme))
    (h : Read.clauses ts = .ok (cl, rest)) :
    ∃ (more : List (Gap × Clause)) (cs' : List Char),
      cs = more.flatMap (fun m => m.1.1 ++ m.2.text) ++ cs' ∧
      (more.map fun m => m.2.denote) = cl ∧ (∀ m ∈ more, Short m.2.target.numerals) ∧
      Continues cs' (rest.map Token.lexeme) := by
  induction ts using Read.clauses.induct generalizing cs cl rest with
  | case1 b pos ts e he =>
    rw [Read.clauses_and, he] at h
    cases h
  | case2 b pos ts c rest' hc ih =>
    rw [Read.clauses_and, hc] at h
    obtain ⟨_, ⟨⟩, h⟩ := bind_eq_ok h
    obtain ⟨⟨cl', rest''⟩, hcl, h⟩ := bind_eq_ok h
    cases h
    obtain ⟨cs₁, rfl, hwf, hs₁⟩ := hs.exists_of_cons
    obtain ⟨d, ⟨b', cs₂, -, hb', rfl, hs₂⟩, rfl, hd⟩ := exists_clause_of_read hs₁ hc
    obtain rfl := hb' rfl
    obtain ⟨more, cs', rfl, rfl, hmore, hs'⟩ := ih hs₂ hcl
    refine ⟨(⟨b, hwf⟩, d) :: more, cs', ?_, rfl, List.forall_mem_cons.2 ⟨hd, hmore⟩, hs'⟩
    simp only [Lexeme.text, List.flatMap_cons, List.append_assoc, List.nil_append]
  | case3 ts hx =>
    rw [Read.clauses] at h
    · cases h
      exact ⟨[], cs, rfl, rfl, by simp, hs⟩
    · exact hx

/-- A clause and the further clauses that are read after it. -/
theorem exists_all_of_read {prev : Option Lexeme} {cs : List Char} {ts rest : List Token}
    {cl : List SemverRange.Clause} (c : Clause)
    (hcov : Covers prev cs c.text (ts.map Token.lexeme)) (hc : Short c.target.numerals)
    (h : Read.clauses ts = .ok (cl, rest)) :
    ∃ r : Range, Covers prev cs r.text (rest.map Token.lexeme) ∧
      r.denote = .all (c.denote :: cl) ∧ ∀ t ∈ r.targets, Short t.numerals := by
  obtain ⟨b, cs₁, hb, hprev, rfl, hs₁⟩ := hcov
  obtain ⟨more, cs₂, rfl, rfl, hmore, hs₂⟩ := exists_clauses_of_read hs₁ h
  refine ⟨.all c more, ⟨b, cs₂, hb, hprev, ?_, hs₂⟩, rfl, ?_⟩
  · simp only [Range.text, List.append_assoc]
  · exact List.forall_mem_cons.2 ⟨hc, List.forall_mem_map.2 hmore⟩

theorem exists_range_of_read {prev : Option Lexeme} {cs : List Char} {ts rest : List Token}
    {r' : SemverRange.Range} (hs : Scans prev cs (ts.map Token.lexeme))
    (h : Read.range ts = .ok (r', rest)) :
    ∃ r : Range, Covers prev cs r.text (rest.map Token.lexeme) ∧ r.denote = r' ∧
      ∀ t ∈ r.targets, Short t.numerals := by
  unfold Read.range at h
  split at h
  · obtain ⟨⟨c', ts₁⟩, hc, h⟩ := bind_eq_ok h
    obtain ⟨⟨cl, ts₂⟩, hcl, h⟩ := bind_eq_ok h
    cases h
    obtain ⟨c, hcov, rfl, hshort⟩ := exists_clause_of_read hs hc
    exact exists_all_of_read c hcov hshort hcl
  · obtain ⟨⟨t', ts₁⟩, ht, h⟩ := bind_eq_ok h
    obtain ⟨t, hcov, rfl, hshort⟩ := exists_target_of_read hs ht
    replace h : Read.rangeAfter t.denote ts₁ = .ok (r', rest) := h
    unfold Read.rangeAfter at h
    split at h
    · next text pos ts₁ =>
      obtain ⟨⟨u', ts₂⟩, hu, h⟩ := bind_eq_ok h
      cases h
      obtain ⟨b, cs₁, hb, hprev, rfl, hs₁⟩ := hcov
      obtain ⟨cs₂, rfl, ⟨b₁, a₁, rfl, hb₁, ha₁⟩, hs₂⟩ := hs₁.exists_of_cons
      obtain ⟨u, ⟨b₂, cs₃, hb₂, -, rfl, hs₃⟩, rfl, hu'⟩ := exists_target_of_read hs₂ hu
      -- the white space of the dash, and what is dropped behind it
      have hafter : a₁ ++ b₂ ≠ [] ∧ ∀ c ∈ a₁ ++ b₂, isBlank c = true :=
        ⟨by simp [ha₁.1], List.forall_mem_append.2 ⟨ha₁.2, hb₂⟩⟩
      refine ⟨.between t ⟨b₁, hb₁⟩ ⟨a₁ ++ b₂, hafter⟩ u, ⟨b, cs₃, hb, hprev, ?_, hs₃⟩, rfl, ?_⟩
      · simp only [Range.text, Lexeme.text, List.append_assoc, List.cons_append]
      · simp [Range.targets, hshort, hu']
    · obtain ⟨⟨cl, ts₂⟩, hcl, h⟩ := bind_eq_ok h
      cases h
      exact exists_all_of_read (.bare t) hcov hshort hcl

/-! ### Formulas -/

/-- Ranges that are read, each further one with the bars before it. -/
theorem exists_ranges_of_read {prev : Option Lexeme} {cs : List Char} {ts rest : List Token}
    {rs : List SemverRange.Range} (hs : Scans prev cs (ts.map Token.lexeme))
    (h : Read.ranges ts = .ok (rs, rest)) :
    ∃ (r : Range) (more : List (Blanks × Blanks × Range)),
      Covers prev cs (r.text ++
        more.flatMap fun m => m.1.1 ++ '|' :: '|' :: (m.2.1.1 ++ m.2.2.text))
        (rest.map Token.lexeme) ∧
      (r.denote :: more.map fun m => m.2.2.denote) = rs ∧
      ∀ t ∈ r.targets ++ more.flatMap fun m => m.2.2.targets, Short t.numerals := by
  induction ts using Read.ranges.induct generalizing prev cs rs rest with
  | case1 ts e he =>
    rw [Read.ranges_of_error he] at h
    cases h
  | case2 ts r' text pos rest' hr ih =>
    rw [Read.ranges_of_or hr] at h
    obtain ⟨⟨rs', rest''⟩, hrs, h⟩ := bind_eq_ok h
    cases h
    obtain ⟨r, ⟨b, cs₁, hb, hprev, rfl, hs₁⟩, rfl, hshort⟩ := exists_range_of_read hs hr
    obtain ⟨cs₂, rfl, ⟨b₁, a₁, rfl, hb₁, ha₁⟩, hs₂⟩ := hs₁.exists_of_cons
    obtain ⟨q, more, ⟨b₂, cs₃, hb₂, -, rfl, hs₃⟩, rfl, hmore⟩ := ih hs₂ hrs
    have hafter := List.forall_mem_append.2 ⟨ha₁, hb₂⟩
    refine ⟨r, (⟨b₁, hb₁⟩, ⟨a₁ ++ b₂, hafter⟩, q) :: more, ⟨b, cs₃, hb, hprev, ?_, hs₃⟩, rfl, ?_⟩
    · simp only [Lexeme.text, List.flatMap_cons, List.append_assoc, List.cons_append]
    · rw [List.flatMap_cons]
      exact List.forall_mem_append.2 ⟨hshort, hmore⟩
  | case3 ts r' rest' hno hr =>
    rw [Read.ranges_of_not_or hr fun b pos ts' => hno b pos ts'] at h
    cases h
    obtain ⟨r, hcov, rfl, hshort⟩ := exists_range_of_read hs hr
    exact ⟨r, [], by simpa using hcov, rfl, by simpa using hshort⟩

/-- **A formula that is read has a derivation** with the text that the tokens are cut from. -/
theorem Formula.exists_derivation {cs : List Char} {ts : List Token} {f : SemverRange.Formula}
    (hs : Scans none cs (ts.map Token.lexeme)) (h : Read.formula ts = .ok f) :
    ∃ d : Formula, d.text = cs ∧ Short d.numerals ∧ d.denote = f := by
  unfold Read.formula at h
  split at h
  · next hnil =>
    cases h
    rw [List.isEmpty_iff.1 hnil] at hs
    exact ⟨.blank ⟨cs, hs.blanks_of_nil⟩, rfl, short_nil, rfl⟩
  · obtain ⟨⟨rs, rest⟩, hrs, h⟩ := bind_eq_ok h
    obtain ⟨⟨⟩, hdone, h⟩ := bind_eq_ok h
    cases h
    obtain ⟨r, more, ⟨b, cs', hb, -, rfl, l, -, hs'⟩, rfl, hshort⟩ := exists_ranges_of_read hs hrs
    cases rest with
    | cons t rest => cases hdone
    | nil =>
      refine ⟨.ranges ⟨b, hb⟩ r more ⟨cs', hs'.blanks_of_nil⟩, ?_, short_flatMap.2 hshort, rfl⟩
      simp only [text, List.append_assoc]

end Grammar

end SemverRange
