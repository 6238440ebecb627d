import SemverRange.Proofs.Formula.Boundary
import SemverRange.Proofs.Formula.Refusal
import SemverRange.Proofs.Formula.Tracking

/-!
# Positions in messages

When a text is refused, a piece of it is quoted with a position.  The piece is a stray character,
which stands at the position, or the text of a token without the white space around it.  The
position is that of the token, so where the token starts with white space the piece stands behind
this white space.  Only bars and dashes start with white space.

## Main definitions

* `Reason.quote?` — the piece of text that a reason quotes, and its position.
* `Token.StandsIn source`, `Token.Stray.StandsIn source` — the token, or the character, stands at
  its place.

## Main results

* `standsIn_scanFrom` — tokens and stray characters stand at their places.
* `Formula.quotes_text` — **what is quoted stands at the position, or behind white space there**,
  and when the latter may be.
-/

namespace SemverRange

/-- The piece of text that the reason quotes, and its position. -/
def Reason.quote? : Reason → Option (List Char × ℕ)
  | .stray c p => some ([c], p)
  | .misplaced _ (.piece q p) _ => some (q, p)
  | .misplaced _ _ _ => none

/-- This is how the piece and its position are shown. -/
theorem Reason.describe_of_quote? {r : Reason} {q : List Char} {p : ℕ}
    (h : r.quote? = some (q, p)) : ∃ before after,
      r.describe = before ++ (quotedChars q ++ " at position " ++ toString p) ++ after := by
  cases r with
  | stray c pos =>
    cases h
    have hdescribe : (stray c p).describe =
        "unexpected character " ++ quotedChars [c] ++ " at position " ++ toString p := rfl
    refine ⟨"unexpected character ", "", hdescribe.trans ?_⟩
    simp only [String.append_assoc, String.append_empty]
  | misplaced goal place complaint =>
    cases place with
    | endOfInput => cases h
    | blanks pos => cases h
    | piece cs pos =>
      cases h
      exact ⟨goal.refusal ++ ": unexpected ", complaint.describe, rfl⟩

/-! ### Tokens and stray characters in their places -/

/-- The token is well formed, and its text stands at its place. -/
structure Token.StandsIn (source : List Char) (t : Token) : Prop where
  /-- The text of the token has the form that its kind asks for. -/
  wellformed : t.lexeme.Wellformed
  /-- The token is not empty. -/
  text_ne_nil : t.lexeme.text ≠ []
  /-- The text of the token stands at its place. -/
  isPrefix : t.lexeme.text <+: source.drop t.pos

/-- The character is no white space, and stands at its place. -/
structure Token.Stray.StandsIn (source : List Char) (s : Stray) : Prop where
  /-- White space never is without meaning. -/
  solid : isBlank s.char = false
  /-- The character stands at its place. -/
  isPrefix : [s.char] <+: source.drop s.pos

/-- Behind a token stands what follows it. -/
theorem drop_of_scan {source : List Char} {prev : Option Lexeme} {pos : ℕ} {cs rest : List Char}
    {l : Lexeme} (hcs : source.drop pos = cs) (hscan : Lexeme.scan prev cs = some (l, rest)) :
    source.drop (pos + l.text.length) = rest := by
  rw [← List.drop_drop, hcs, ← (Lexeme.text_scan hscan).2, List.drop_left]

/-- **Tokens and stray characters stand at their places.** -/
theorem standsIn_scanFrom {source : List Char} {prev : Option Lexeme} {pos : ℕ} {cs : List Char}
    (hcs : source.drop pos = cs) :
    match Token.scanFrom prev pos cs with
    | .ok ts => ∀ t ∈ ts, t.StandsIn source
    | .error s => s.StandsIn source := by
  -- along the scanner's own recursion; `hcs` says where in the source it is
  induction prev, pos, cs using Token.scanFrom.induct with
  | case1 prev pos =>
    rw [Token.scanFrom]
    exact List.forall_mem_nil _
  | case2 prev pos c cs hnone =>
    have hstray : Token.scanFrom prev pos (c :: cs) = .error ⟨c, pos⟩ := by
      rw [Token.scanFrom]
      split
      · rfl
      · next hsome => rw [hnone] at hsome; cases hsome
    rw [hstray]
    refine ⟨Lexeme.isBlank_of_scan_eq_none hnone, ?_⟩
    rw [hcs]
    exact ⟨cs, rfl⟩
  | case3 prev pos c cs l rest hscan hdrop ih =>
    rw [scanFrom_of_scan hscan, if_pos hdrop]
    exact ih (drop_of_scan hcs hscan)
  | case4 prev pos c cs l rest hscan hkeep ih =>
    rw [scanFrom_of_scan hscan, if_neg hkeep]
    have hrest := ih (drop_of_scan hcs hscan)
    cases hts : Token.scanFrom (some l) (pos + l.text.length) rest with
    | error s =>
      rw [hts] at hrest
      exact hrest
    | ok ts =>
      rw [hts] at hrest
      have htext := Lexeme.text_scan hscan
      refine List.forall_mem_cons.2 ⟨⟨Lexeme.wellformed_scan hscan, htext.1, ?_⟩, hrest⟩
      rw [hcs, ← htext.2]
      exact List.prefix_append _ _

/-! ### The piece that is shown -/

/-- The piece stands in the source at the position, but for white space there, and there is none
unless the piece is that of bars or of a dash. -/
structure QuotedFrom (source q : List Char) (p : ℕ) : Prop where
  /-- The piece is not empty. -/
  ne_nil : q ≠ []
  /-- There is no white space in the piece. -/
  unspaced : Unspaced q
  /-- The piece stands at the position, or behind white space there. -/
  isPrefix : q <+: (source.drop p).dropWhile isBlank
  /-- There is no white space at the position, unless before bars and before a dash. -/
  stops : q ≠ ['|', '|'] → q ≠ ['-'] → Stops isBlank (source.drop p)

theorem QuotedFrom.of_stray {source : List Char} {s : Token.Stray} (h : s.StandsIn source) :
    QuotedFrom source [s.char] s.pos := by
  obtain ⟨rest, hrest⟩ := h.isPrefix
  have hstops : Stops isBlank (source.drop s.pos) := by
    rw [← hrest]
    exact stops_cons.2 h.solid
  refine ⟨by simp, by simp [Unspaced, h.solid], ?_, fun _ _ => hstops⟩
  rw [hstops.dropWhile_eq_self]
  exact h.isPrefix

theorem QuotedFrom.of_token {source : List Char} {t : Token} (h : t.StandsIn source)
    (ht : t.lexeme.isAnd = false) : QuotedFrom source (strip t.lexeme.text) t.pos := by
  obtain ⟨b, q, a, htext, hb, ha, hne, hunspaced, hbefore⟩ :=
    Lexeme.exists_core h.wellformed h.text_ne_nil ht
  obtain ⟨rest, hrest⟩ := h.isPrefix
  have hsource : source.drop t.pos = b ++ (q ++ (a ++ rest)) := by
    rw [← hrest, htext, List.append_assoc, List.append_assoc]
  have hsolid := hunspaced.solid hne
  have hstops := hsolid.stops_append (a ++ rest)
  rw [htext, hsolid.strip_append hb ha]
  refine ⟨hne, hunspaced, ?_, fun hbars hdash => ?_⟩
  · rw [hsource, dropWhile_append_of_stops hb hstops]
    exact List.prefix_append _ _
  · have hnil : b = [] := by
      by_contra hb'
      rcases hbefore hb' with hq | hq
      · exact hbars hq
      · exact hdash hq
    rw [hsource, hnil]
    exact hstops

/-- The piece stands at the position itself if and only if there is no white space there. -/
theorem QuotedFrom.take_eq_iff {source q : List Char} {p : ℕ} (h : QuotedFrom source q p) :
    (source.drop p).take q.length = q ↔ Stops isBlank (source.drop p) := by
  constructor
  · intro htake
    have hstarts : q <+: source.drop p := htake ▸ List.take_prefix _ _
    obtain ⟨rest, hrest⟩ := hstarts
    rw [← hrest]
    exact (h.unspaced.solid h.ne_nil).stops_append rest
  · intro hstops
    have hstarts := h.isPrefix
    rw [hstops.dropWhile_eq_self] at hstarts
    exact (List.prefix_iff_eq_take.1 hstarts).symm

/-! ### What the readers refuse -/

/-- The refused token is one of the tokens. -/
theorem Read.mem_of_formula {ts : List Token} {t : Token} {complaint : Complaint}
    (h : formula ts = .error (.misplaced (some t) complaint)) : t ∈ ts := by
  have htracks := Automaton.tracks_formula ts
  rw [h] at htracks
  exact htracks.2.mem

theorem Read.mem_of_version {source : List Char} {stop : ℕ} {ts : List Token} {t : Token}
    {complaint : Complaint} (h : version source stop ts = .error (.misplaced (some t) complaint)) :
    t ∈ ts := by
  have htracks : Automaton.Tracks ⟨.first, .target⟩ ts (Automaton.AtEnd .first) (target ts) :=
    Automaton.tracks_target rfl fun _ _ => rfl
  unfold version at h
  match hread : target ts, htracks with
  | .error (.misplaced found complaint'), hmisfit =>
    rw [hread] at h
    cases h
    exact hmisfit.mem
  | .error (.ofNumeral d), _ =>
    rw [hread] at h
    cases h
  | .error (.ofVersion d), _ =>
    rw [hread] at h
    cases h
  | .ok (u, rest), ⟨pre, s, hts, _, _⟩ =>
    -- whatever is wrong with what was read, the first token that is left is named
    have hfound : rest.head? = some t := by
      rw [hread] at h
      cases u with
      | version v =>
        cases rest with
        | nil => cases h
        | cons k rest => cases h; rfl
      | _ =>
        injection h with h
        injection h
    rw [hts]
    exact List.mem_append_right _ (List.mem_of_mem_head? hfound)

/-! ### Texts that are refused -/

section Refused

variable {text : String}

theorem standsIn_of_tokenize {ts : Tokens} (h : tokenize text = .ok ts) :
    ∀ t ∈ ts.toList, t.StandsIn text.toList := by
  have hstands := @standsIn_scanFrom text.toList none 0 text.toList rfl
  unfold tokenize at h
  split at h
  · next hts =>
    rw [hts] at hstands
    cases h
    exact hstands
  · cases h

/-- A reason to stop quotes one of the tokens. -/
theorem QuotedFrom.of_stop {goal : Goal} {s : Stop} {ts : Tokens} {e : SyntaxFault} {q : List Char}
    {p : ℕ} (hts : tokenize text = .ok ts)
    (hmem : ∀ t complaint, s = .misplaced (some t) complaint → t ∈ ts.toList)
    (h : s.toFault text goal = .ofSyntax e) (hq : e.reason.quote? = some (q, p)) :
    QuotedFrom text.toList q p := by
  cases s with
  | ofNumeral d => cases h
  | ofVersion d => cases h
  | misplaced found complaint =>
    cases h
    cases found with
    | none => cases hq
    | some t =>
      have ht := standsIn_of_tokenize hts t (hmem t complaint rfl)
      cases hand : t.lexeme.isAnd with
      | true =>
        have hplace : t.place = .blanks t.pos := if_pos hand
        simp [Reason.quote?, hplace] at hq
      | false =>
        have hplace : t.place = .piece (strip t.lexeme.text) t.pos :=
          if_neg (Bool.eq_false_iff.1 hand)
        simp only [Option.map_some, Option.getD_some, hplace, Reason.quote?, Option.some.injEq,
          Prod.mk.injEq] at hq
        obtain ⟨rfl, rfl⟩ := hq
        exact .of_token ht hand

theorem QuotedFrom.of_tokenize {e : SyntaxFault} {q : List Char} {p : ℕ}
    (h : tokenize text = .error e) (hq : e.reason.quote? = some (q, p)) :
    QuotedFrom text.toList q p := by
  have hstands := @standsIn_scanFrom text.toList none 0 text.toList rfl
  unfold tokenize at h
  split at h
  · cases h
  · next s hs =>
    rw [hs] at hstands
    cases h
    cases hq
    exact .of_stray hstands

/-- What is refused after the tokens are cut is quoted from the text. -/
theorem QuotedFrom.of_read {α : Type} {goal : Goal} {read : Tokens → Except Stop α}
    (hmem : ∀ ts t complaint, read ts = .error (.misplaced (some t) complaint) → t ∈ ts.toList)
    {e : SyntaxFault} {q : List Char} {p : ℕ}
    (h : ((tokenize text).mapError Fault.ofSyntax >>= fun ts =>
      (read ts).mapError (Stop.toFault text goal)) = .error (.ofSyntax e))
    (hq : e.reason.quote? = some (q, p)) : QuotedFrom text.toList q p := by
  cases hts : tokenize text with
  | error f =>
    rw [hts] at h
    cases h
    exact .of_tokenize hts hq
  | ok ts =>
    cases hr : read ts with
    | ok a =>
      rw [hts] at h
      simp [Except.mapError, bind, Except.bind, hr] at h
    | error s =>
      rw [hts] at h
      simp only [Except.mapError, bind, Except.bind, hr, Except.error.injEq] at h
      refine .of_stop hts (fun t complaint hs => ?_) h hq
      exact hmem ts t complaint (hs ▸ hr)

/-- **What is quoted stands in the text**, at the position or behind white space there.  It stands
at the position itself if and only if there is no white space there, and so it does unless it is
`||` or `-`. -/
theorem Formula.quotes_text {e : SyntaxFault} {q : List Char} {p : ℕ}
    (h : Formula.parse text = .error (.ofSyntax e) ∨ Version.parse text = .error (.ofSyntax e))
    (hq : e.reason.quote? = some (q, p)) :
    (∃ before after, e.reason.describe =
      before ++ (quotedChars q ++ " at position " ++ toString p) ++ after) ∧
    q ≠ [] ∧ q <+: (text.toList.drop p).dropWhile isBlank ∧
    ((text.toList.drop p).take q.length = q ↔ ∀ c ∈ (text.toList.drop p).head?, isBlank c = false) ∧
    ((text.toList.drop p).take q.length = q ∨ q = ['|', '|'] ∨ q = ['-']) := by
  have hquoted : QuotedFrom text.toList q p := by
    rcases h with h | h
    · exact .of_read (fun ts t complaint => Read.mem_of_formula) h hq
    · exact .of_read (fun ts t complaint => Read.mem_of_version) h hq
  refine ⟨Reason.describe_of_quote? hq, hquoted.ne_nil, hquoted.isPrefix, hquoted.take_eq_iff, ?_⟩
  by_cases hbars : q = ['|', '|']
  · exact .inr (.inl hbars)
  · by_cases hdash : q = ['-']
    · exact .inr (.inr hdash)
    · exact .inl (hquoted.take_eq_iff.2 (hquoted.stops hbars hdash))

end Refused

/-- Bars behind a version are quoted behind the white space before them. -/
theorem Formula.quotes_text_bars :
    let text := "1.2.3  || 2"
    let e : SyntaxFault := ⟨text, .misplaced .version (.piece ['|', '|'] 5) .unexpected⟩
    ((Formula.parse text = .error (.ofSyntax e) ∨ Version.parse text = .error (.ofSyntax e)) ∧
      e.reason.quote? = some (['|', '|'], 5)) ∧
    (∃ before after, e.reason.describe =
      before ++ (quotedChars ['|', '|'] ++ " at position " ++ toString 5) ++ after) ∧
    ['|', '|'] <+: (text.toList.drop 5).dropWhile isBlank ∧
    ((text.toList.drop 5).take 2 = ['|', '|'] ↔
      ∀ c ∈ (text.toList.drop 5).head?, isBlank c = false) := by
  intro text e
  have h : Version.parse text = .error (.ofSyntax e) := by decide +kernel
  obtain ⟨hshown, -, hstarts, hiff, -⟩ := quotes_text (.inr h) rfl
  exact ⟨⟨.inr h, rfl⟩, hshown, hstarts, hiff⟩

/-- The dash that is quoted with the position 5 stands at the position 6. -/
theorem Formula.quotes_dash_elsewhere :
    let text := "1 - 2 - 3"
    let e : SyntaxFault := ⟨text, .misplaced .formula (.piece ['-'] 5) .unexpected⟩
    Formula.parse text = .error (.ofSyntax e) ∧ e.reason.quote? = some (['-'], 5) ∧
      (text.toList.drop 5).take 1 = [' '] ∧ (text.toList.drop 6).take 1 = ['-'] := by
  intro text e
  exact ⟨by decide +kernel, rfl, by decide +kernel, by decide +kernel⟩

end SemverRange
