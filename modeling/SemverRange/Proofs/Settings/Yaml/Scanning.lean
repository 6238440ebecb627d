import Mathlib.Data.Nat.Notation
import Mathlib.Tactic.SplitIfs
import SemverRange.Proofs.Settings.Steps
import SemverRange.Settings.Yaml.Lexer

/-!
# What a YAML text cannot be cut at

A text is cut into tokens up to the first fault.  Most faults say only that the text does not follow
the format.  Two say more, and what they say stands in the text: an escape asks for a character by a
number that no character has, or a directive names a version by a numeral that is too long.

All that the lexer looks at is an end of the text, and so what it stops at stands in the text.

## Main definitions

* `Yaml.Fault.InText` — the text has what the lexer stops at.

## Main results

* `Yaml.inText_of_scan` — **what the lexer stops at stands in the text.**
-/

namespace SemverRange

namespace Yaml

/-- If the step fails, it says no more than that the text does not follow the format. -/
abbrev FailsPlainly {α : Type} : Except Fault α → Prop := FailsFor (· = .malformed)

/-- The text has what the lexer stops at. -/
inductive Fault.InText (text : List Char) : Fault → Prop
  /-- The text does not follow the format. -/
  | malformed : InText text .malformed
  /-- The text has an escape with the number of no character. -/
  | noCharacter {letter : Char} {ds : List Char} {code : ℕ}
      (hwithin : '\\' :: letter :: ds <:+: text) (hwidth : escapeWidth? letter = some ds.length)
      (hcode : ofDigits? 16 ds = some code) (hgreat : 0x110000 ≤ code) :
      InText text (.noCharacter code)
  /-- The text has a directive for a version, with a numeral that is too long. -/
  | longVersion {between ds : List Char}
      (hwithin : ['%', 'Y', 'A', 'M', 'L'] ++ between ++ ds <:+: text)
      (hdigits : ∀ c ∈ ds, c.isDigit = true) (hlong : Numeral.limit < ds.length) :
      InText text (.ofNumeral (.tooLongToRead ds.length))

variable {text cs : List Char} {f : Fault}

/-- What stands in a part of the text stands in the text. -/
theorem Fault.InText.mono (h : f.InText cs) (hwithin : cs <:+: text) : f.InText text := by
  cases h with
  | malformed => exact .malformed
  | noCharacter hin hwidth hcode hgreat =>
    exact .noCharacter (hin.trans hwithin) hwidth hcode hgreat
  | longVersion hin hdigits hlong => exact .longVersion (hin.trans hwithin) hdigits hlong

section Within

variable {α : Type} {P : α → Prop} {x : Except Fault α}

theorem inText_of_within (hx : EndsIn P (Fault.InText cs) x) (hwithin : cs <:+: text) :
    EndsIn P (Fault.InText text) x :=
  hx.mono_error fun _ hf => hf.mono hwithin

theorem inText_of_malformed (hx : EndsIn P (· = .malformed) x) : EndsIn P (Fault.InText text) x :=
  hx.mono_error fun _ hf => hf ▸ .malformed

end Within

/-! ### Scalars -/

theorem suffix_of_takeBreak {c : Char} {rest : List Char} (h : takeBreak cs = some (c, rest)) :
    rest <:+ cs := by
  unfold takeBreak at h
  split at h
  · cases h
    exact List.suffix_append ['\r', '\n'] rest
  · split_ifs at h
    · cases h
      exact List.suffix_cons _ rest
    · cases h
      exact List.suffix_cons _ rest
  · cases h

theorem endsIn_flowBreaks (cs : List Char) :
    EndsIn (fun x => x.2 <:+ cs) (· = .malformed) (flowBreaks cs) := by
  fun_induction flowBreaks cs with
  | case1 => rfl
  | case2 cs _ _ => exact List.dropWhile_suffix isGap
  | case3 cs _ c rest h ih =>
    have hrest : rest <:+ cs := (suffix_of_takeBreak h).trans (List.dropWhile_suffix isGap)
    exact ih.bind fun x hx => hx.trans hrest

theorem endsIn_flowGap (cs : List Char) :
    EndsIn (fun x => x.2 <:+ cs) (· = .malformed) (flowGap cs) := by
  unfold flowGap
  dsimp only
  split
  · split
    · rfl
    · exact List.dropWhile_suffix isGap
  · next first rest h =>
    have hrest : rest <:+ cs := (suffix_of_takeBreak h).trans (List.dropWhile_suffix isGap)
    exact (endsIn_flowBreaks rest).bind fun x hx => hx.trans hrest

theorem hexNumber?_eq_some {width code : ℕ} (h : hexNumber? width cs = some code) :
    (cs.take width).length = width ∧ ofDigits? 16 (cs.take width) = some code := by
  rw [hexNumber?] at h
  split at h
  · cases h
  · next hlength =>
    rw [List.length_take]
    exact ⟨by omega, h⟩

/-- An escape asks for a character that exists, or the text has the number of none. -/
theorem endsIn_escape (cs : List Char) :
    EndsIn (fun x => x.2 <:+ cs) (Fault.InText ('\\' :: cs)) (escape cs) := by
  unfold escape
  split
  · next rest h =>
    have hrest : rest <:+ cs := suffix_of_takeBreak h
    exact (inText_of_malformed (endsIn_flowBreaks rest)).bind fun _ hx => hx.trans hrest
  · split
    · exact .malformed
    · next c rest _ =>
      have hrest : rest <:+ c :: rest := List.suffix_cons c rest
      split
      · exact hrest
      · next width _ hwidth =>
        split
        · exact .malformed
        · next code hcode =>
          obtain ⟨hlength, hnumber⟩ := hexNumber?_eq_some hcode
          split
          · exact (List.drop_suffix width rest).trans hrest
          · next hgreat =>
            have hwithin : '\\' :: c :: rest.take width <:+: '\\' :: c :: rest :=
              ⟨[], rest.drop width, by simp⟩
            exact .noCharacter hwithin (hlength.symm ▸ hwidth) hnumber (Nat.le_of_not_lt hgreat)
      · exact .malformed

/-- What goes wrong in a scalar between quotes is malformed, or the text has the number of no
character. -/
theorem failsFor_quotedScalar (double : Bool) (cs : List Char) :
    FailsFor (Fault.InText cs) (quotedScalar double cs) := by
  -- on the text; each step goes on with an end of it
  fun_induction quotedScalar double cs with
  | case1 => exact .malformed
  | case2 rest _ ih =>
    have hrest (c : Char) : rest.drop 1 <:+ c :: rest :=
      (List.drop_suffix 1 rest).trans (List.suffix_cons c rest)
    exact (inText_of_within ih (hrest _).isInfix).bind fun _ _ => trivial
  | case3 => trivial
  | case4 c rest _ hc ih =>
    obtain rfl : c = '\\' := of_decide_eq_true (Bool.and_eq_true_iff.1 hc).2
    refine (endsIn_escape rest).bind fun x hx => ?_
    dsimp only
    split
    · next hless =>
      have hafter : x.2 <:+ '\\' :: rest := hx.trans (List.suffix_cons _ rest)
      exact (inText_of_within (ih x.2 hless) hafter.isInfix).bind fun _ _ => trivial
    · exact .malformed
  | case5 c rest _ _ _ ih =>
    refine (inText_of_malformed (endsIn_flowGap (c :: rest))).bind fun x hx => ?_
    dsimp only
    split
    · next hless => exact (inText_of_within (ih x.2 hless) hx.isInfix).bind fun _ _ => trivial
    · exact .malformed
  | case6 c rest _ _ _ ih =>
    exact (inText_of_within ih (List.suffix_cons c rest).isInfix).bind fun _ _ => trivial

theorem failsPlainly_increment? (c : Char) : FailsPlainly (increment? c) := by
  unfold increment?
  split_ifs
  · rfl
  · trivial
  · trivial

theorem failsPlainly_blockSigns (cs : List Char) : FailsPlainly (blockSigns cs) := by
  unfold blockSigns
  split
  · exact (failsPlainly_increment? _).bind fun _ _ => trivial
  · refine (failsPlainly_increment? _).bind fun increment _ => ?_
    split
    · trivial
    · split <;> trivial

theorem failsPlainly_ignoredLine (cs : List Char) : FailsPlainly (ignoredLine cs) := by
  unfold ignoredLine
  dsimp only
  split_ifs <;> trivial

theorem failsPlainly_blockScalar (folded : Bool) (indent : ℕ) (cs : List Char) :
    FailsPlainly (blockScalar folded indent cs) := by
  unfold blockScalar
  refine (failsPlainly_blockSigns cs).bind fun x _ => ?_
  dsimp only
  split
  · rfl
  · exact (failsPlainly_ignoredLine _).bind fun _ _ => trivial

/-! ### Tokens with a text of their own -/

theorem failsPlainly_anchorName (cs : List Char) : FailsPlainly (anchorName cs) := by
  unfold anchorName
  dsimp only
  split
  · rfl
  · trivial

theorem failsPlainly_percentOctets (cs : List Char) : FailsPlainly (percentOctets cs) := by
  fun_induction percentOctets cs with
  | case1 _ _ _ _ _ _ _ ih => exact ih.bind fun _ _ => trivial
  | case2 => rfl
  | case3 => rfl
  | case4 => trivial

theorem failsPlainly_tagChars (cs : List Char) : FailsPlainly (tagChars cs) := by
  fun_induction tagChars cs with
  | case1 => trivial
  | case2 rest ih =>
    refine (failsPlainly_percentOctets _).bind fun x _ => ?_
    dsimp only
    split
    · rfl
    · split
      · next hless => exact (ih x.2 hless).bind fun _ _ => trivial
      · rfl
  | case3 _ _ _ _ ih => exact ih.bind fun _ _ => trivial
  | case4 => trivial

theorem failsPlainly_tagChars1 (cs : List Char) : FailsPlainly (tagChars1 cs) := by
  unfold tagChars1
  refine (failsPlainly_tagChars cs).bind fun x _ => ?_
  dsimp only
  split
  · rfl
  · trivial

theorem failsPlainly_tagHandle (cs : List Char) : FailsPlainly (tagHandle cs) := by
  unfold tagHandle
  split
  · split
    · trivial
    · split
      · trivial
      · rfl
  · rfl

/-- What is asked for has to be there. -/
theorem failsPlainly_ite {p : Prop} [Decidable p] {α : Type} {a : α} :
    FailsPlainly (if p then pure a else throw .malformed) := by
  split
  · trivial
  · rfl

theorem failsPlainly_tagText (cs : List Char) : FailsPlainly (tagText cs) := by
  unfold tagText
  dsimp only
  split
  · refine (failsPlainly_tagChars1 _).bind fun x _ => ?_
    split
    · exact failsPlainly_ite
    · rfl
  · split_ifs
    · exact failsPlainly_ite
    · exact (failsPlainly_tagHandle _).bind fun _ _ =>
        (failsPlainly_tagChars1 _).bind fun _ _ => failsPlainly_ite
    · exact (failsPlainly_tagChars1 _).bind fun _ _ => failsPlainly_ite

/-! ### Directives -/

/-- A number of a version is read, or it has too many digits. -/
theorem endsIn_versionNumber (cs : List Char) :
    EndsIn (fun x => x.2 <:+ cs)
      (fun f => f = .malformed ∨ ∃ ds : List Char, ds <+: cs ∧ (∀ c ∈ ds, c.isDigit = true) ∧
        Numeral.limit < ds.length ∧ f = .ofNumeral (.tooLongToRead ds.length))
      (versionNumber cs) := by
  unfold versionNumber
  dsimp only
  split
  · exact .inl rfl
  · rw [Numeral.read]
    split
    · exact List.dropWhile_suffix _
    · next hlong =>
      exact .inr ⟨_, List.takeWhile_prefix _, List.all_eq_true.1 List.all_takeWhile,
        Nat.lt_of_not_le hlong, rfl⟩

/-- The number of a version that is too long is in the directive. -/
theorem inText_of_versionNumber {between ds : List Char}
    (hname : ['%', 'Y', 'A', 'M', 'L'] ++ between ++ ds <:+: text) :
    EndsIn (fun x => x.2 <:+ ds) (Fault.InText text) (versionNumber ds) := by
  refine (endsIn_versionNumber ds).mono_error ?_
  rintro f (rfl | ⟨digits, ⟨after, rfl⟩, hdigits, hlong, rfl⟩)
  · exact .malformed
  · have hwithin : ['%', 'Y', 'A', 'M', 'L'] ++ between ++ digits <:+: text :=
      .trans ⟨[], after, by simp⟩ hname
    exact .longVersion hwithin hdigits hlong

theorem failsFor_versionDirective {cs : List Char}
    (hname : ['%', 'Y', 'A', 'M', 'L'] ++ cs <:+: text) :
    FailsFor (Fault.InText text) (versionDirective cs) := by
  -- both numbers stand at some end of what follows the name
  have hwithin {ds : List Char} (hds : ds <:+ cs) :
      ∃ between, ['%', 'Y', 'A', 'M', 'L'] ++ between ++ ds <:+: text := by
    obtain ⟨between, rfl⟩ := hds
    exact ⟨between, by simpa using hname⟩
  unfold versionDirective
  obtain ⟨between, hmajor⟩ := hwithin (List.dropWhile_suffix (· = ' '))
  refine (inText_of_versionNumber hmajor).bind fun x hx => ?_
  dsimp only
  split
  · exact .malformed
  · have hrest : x.2.drop 1 <:+ cs :=
      ((List.drop_suffix 1 x.2).trans hx).trans (List.dropWhile_suffix (· = ' '))
    obtain ⟨between, hminor⟩ := hwithin hrest
    exact (inText_of_versionNumber hminor).bind fun _ _ => inText_of_malformed failsPlainly_ite

theorem failsPlainly_handleDirective (cs : List Char) : FailsPlainly (handleDirective cs) := by
  unfold handleDirective
  refine (failsPlainly_tagHandle _).bind fun x _ => ?_
  dsimp only
  split
  · rfl
  · exact (failsPlainly_tagChars1 _).bind fun _ _ => failsPlainly_ite

/-- A directive is read, or the number of a version in it is too long. -/
theorem failsFor_directive {cs : List Char} (hmark : '%' :: cs <:+: text) :
    FailsFor (Fault.InText text) (directive cs) := by
  unfold directive
  dsimp only
  split
  · exact .malformed
  split
  · next hversion =>
    have hname : ['%', 'Y', 'A', 'M', 'L'] ++ cs.dropWhile isNameChar <:+: text := by
      rwa [← List.takeWhile_append_dropWhile (p := isNameChar) (l := cs), hversion] at hmark
    refine (failsFor_versionDirective hname).bind fun x _ => ?_
    exact (inText_of_malformed (failsPlainly_ignoredLine _)).bind fun _ _ => trivial
  split
  · refine (inText_of_malformed (failsPlainly_handleDirective _)).bind fun x _ => ?_
    exact (inText_of_malformed (failsPlainly_ignoredLine _)).bind fun _ _ => trivial
  · exact (inText_of_malformed (failsPlainly_ignoredLine _)).bind fun _ _ => trivial

/-! ### The lexer -/

theorem eq_cons_of_head {c : Char} (h : head cs = c) (hc : c ≠ '\x00') : cs = c :: cs.drop 1 := by
  cases cs with
  | nil => exact absurd h.symm hc
  | cons d cs => rw [← h]; rfl

/-- What is left of the text is an end of it. -/
def Lexer.Within (text : List Char) (l : Lexer) : Prop := l.cursor.rest <:+ text

/-- A step of the lexer leaves an end of the text, or the text has what it stops at. -/
abbrev GoesOn (text : List Char) : Except Fault Lexer → Prop :=
  EndsIn (Lexer.Within text) (Fault.InText text)

theorem Cursor.rest_next_suffix (c : Cursor) : c.next.rest <:+ c.rest := by
  unfold next
  split
  · exact List.suffix_rfl
  · next ch rest hrest =>
    rw [hrest]
    exact List.suffix_cons ch rest

theorem Cursor.rest_forward_suffix (c : Cursor) (n : ℕ) : (c.forward n).rest <:+ c.rest := by
  induction n generalizing c with
  | zero => exact List.suffix_rfl
  | succ n ih => exact (ih c.next).trans c.rest_next_suffix

namespace Lexer

variable {l l' : Lexer}

theorem Within.forward (h : l.Within text) (n : ℕ) : (l.forward n).Within text :=
  (l.cursor.rest_forward_suffix n).trans h

theorem Within.moveTo (h : l.Within text) (rest : List Char) : (l.moveTo rest).Within text :=
  h.forward _

/-- The step changes nothing about the place, or says no more than that the text is malformed. -/
abbrev Stays (l : Lexer) : Except Fault Lexer → Prop :=
  EndsIn (fun l' => l'.cursor = l.cursor) (· = .malformed)

/-- A step that stays where it is comes before another one. -/
theorem Stays.goesOn {x : Except Fault Lexer} {f : Lexer → Except Fault Lexer} (hx : l.Stays x)
    (hl : l.Within text) (hf : ∀ l' : Lexer, l'.Within text → GoesOn text (f l')) :
    GoesOn text (x >>= f) :=
  (inText_of_malformed hx).bind fun l' hl' => hf l' (by rwa [Within, hl'])

theorem stays_dropStale (l : Lexer) : l.Stays l.dropStale := by
  unfold dropStale
  split <;> rfl

theorem stays_forgetKey (l : Lexer) : l.Stays l.forgetKey := by
  unfold forgetKey
  split <;> rfl

theorem stays_rememberKey (l : Lexer) : l.Stays l.rememberKey := by
  unfold rememberKey
  split
  · exact EndsIn.bind l.stays_forgetKey fun l' hl' => hl'
  · rfl

theorem stays_openBlock (l : Lexer) (t : Token) : l.Stays (l.openBlock t) := by
  unfold openBlock startBlock
  split_ifs <;> rfl

theorem cursor_endBlocks (column : Int) (n : ℕ) (l : Lexer) :
    (endBlocks column n l).cursor = l.cursor := by
  fun_induction endBlocks column n l with
  | case1 _ _ _ ih => exact ih
  | case2 => rfl
  | case3 => rfl

theorem cursor_unwind (l : Lexer) (column : Int) : (l.unwind column).cursor = l.cursor := by
  unfold unwind
  split
  · rfl
  · exact cursor_endBlocks column _ l

theorem cursor_startBlock (l : Lexer) (column before : ℕ) (t : Token) :
    (l.startBlock column before t).cursor = l.cursor := by
  unfold startBlock
  split <;> rfl

theorem stays_breakOff (l : Lexer) : l.Stays l.breakOff := by
  unfold breakOff
  exact EndsIn.bind (l.unwind (-1)).stays_forgetKey fun l' hl' => hl'.trans (l.cursor_unwind (-1))

section Tokens

variable (hl : l.Within text)
include hl

theorem goesOn_atEnd : GoesOn text l.atEnd := l.stays_breakOff.goesOn hl fun _ hl' => hl'

theorem goesOn_atDirective (hmark : head l.cursor.rest = '%') : GoesOn text l.atDirective := by
  unfold atDirective
  refine (inText_of_malformed l.stays_breakOff).bind fun l' hl' => ?_
  rw [hl']
  have hwithin : '%' :: l.cursor.rest.drop 1 <:+: text := by
    rw [← eq_cons_of_head hmark (by decide)]
    exact hl.isInfix
  exact (failsFor_directive hwithin).bind fun _ _ => Within.moveTo (by rwa [Within, hl']) _

theorem goesOn_atDocumentMark (t : Token) : GoesOn text (l.atDocumentMark t) :=
  l.stays_breakOff.goesOn hl fun _ hl' => hl'.forward 3

theorem goesOn_atOpening (t : Token) : GoesOn text (l.atOpening t) :=
  l.stays_rememberKey.goesOn hl fun _ hl' => hl'.forward 1

theorem goesOn_atClosing (t : Token) : GoesOn text (l.atClosing t) :=
  l.stays_forgetKey.goesOn hl fun _ hl' => hl'.forward 1

theorem goesOn_atComma : GoesOn text l.atComma :=
  l.stays_forgetKey.goesOn hl fun _ hl' => hl'.forward 1

theorem goesOn_atEntry : GoesOn text l.atEntry :=
  (l.stays_openBlock _).goesOn hl fun l' hl' =>
    l'.stays_forgetKey.goesOn hl' fun _ hl'' => hl''.forward 1

theorem goesOn_atKey : GoesOn text l.atKey :=
  (l.stays_openBlock _).goesOn hl fun l' hl' =>
    l'.stays_forgetKey.goesOn hl' fun _ hl'' => hl''.forward 1

theorem within_atColonOf (k : PossibleKey) : (l.atColonOf k).Within text := by
  unfold atColonOf
  dsimp only
  refine Within.forward ?_ 1
  rw [Within]
  dsimp only
  split
  · exact hl
  · rwa [cursor_startBlock]

theorem goesOn_atColon : GoesOn text l.atColon := by
  unfold atColon
  split
  · exact within_atColonOf hl _
  · exact (l.stays_openBlock _).goesOn hl fun l' hl' =>
      (stays_forgetKey _).goesOn hl' fun _ hl'' => hl''.forward 1

theorem goesOn_atContent {skip : ℕ} {read : List Char → Except Fault (Token × List Char)}
    (hread : ∀ cs, FailsFor (Fault.InText cs) (read cs)) :
    GoesOn text (l.atContent skip read) :=
  l.stays_rememberKey.goesOn hl fun l' hl' => by
    have hrest : l'.cursor.rest.drop skip <:+ text := (List.drop_suffix _ _).trans hl'
    exact (inText_of_within (hread _) hrest.isInfix).bind fun _ _ => Within.moveTo hl' _

theorem goesOn_atBlockScalar (folded : Bool) : GoesOn text (l.atBlockScalar folded) :=
  l.stays_forgetKey.goesOn hl fun _ hl' =>
    (inText_of_malformed (failsPlainly_blockScalar _ _ _)).bind fun _ _ => Within.moveTo hl' _

theorem goesOn_atPlain : GoesOn text l.atPlain :=
  l.stays_rememberKey.goesOn hl fun _ hl' => hl'.moveTo _

theorem goesOn_dispatch : GoesOn text (l.dispatch (head l.cursor.rest)) := by
  have hanchor (cs : List Char) {make : List Char → Token} :
      FailsFor (Fault.InText cs)
        (anchorName cs >>= fun x => pure (make x.1, x.2)) :=
    (inText_of_malformed (failsPlainly_anchorName cs)).bind fun _ _ => trivial
  unfold dispatch
  dsimp only
  -- one case for each kind of token, in the order in which the lexer asks for them
  exact .ite (fun _ => goesOn_atEnd hl) <|
    .ite (fun h => goesOn_atDirective hl (of_decide_eq_true (Bool.and_eq_true_iff.1 h).1)) <|
    .ite (fun _ => goesOn_atDocumentMark hl _) <|
    .ite (fun _ => goesOn_atDocumentMark hl _) <|
    .ite (fun _ => goesOn_atOpening hl _) <|
    .ite (fun _ => goesOn_atOpening hl _) <|
    .ite (fun _ => goesOn_atClosing hl _) <|
    .ite (fun _ => goesOn_atClosing hl _) <|
    .ite (fun _ => goesOn_atComma hl) <|
    .ite (fun _ => goesOn_atEntry hl) <|
    .ite (fun _ => goesOn_atKey hl) <|
    .ite (fun _ => goesOn_atColon hl) <|
    .ite (fun _ => goesOn_atContent hl fun cs => hanchor cs) <|
    .ite (fun _ => goesOn_atContent hl fun cs => hanchor cs) <|
    .ite (fun _ => goesOn_atContent hl fun cs =>
      (inText_of_malformed (failsPlainly_tagText cs)).bind fun _ _ => trivial) <|
    .ite (fun _ => goesOn_atBlockScalar hl _) <|
    .ite (fun _ => goesOn_atBlockScalar hl _) <|
    .ite (fun _ => goesOn_atContent hl fun cs =>
      (failsFor_quotedScalar _ cs).bind fun _ _ => trivial) <|
    .ite (fun _ => goesOn_atPlain hl) .malformed

end Tokens

/-- The next token is read and leaves an end of the text, or the text has what the lexer stops
at. -/
theorem goesOn_step (hl : l.Within text) : GoesOn text l.step := by
  unfold step
  extract_lets marked
  split
  next rest broken hrest =>
  extract_lets moved allowed
  have hmarked : marked.Within text := by
    simp only [marked]
    split
    · exact hl.forward 1
    · exact hl
  have hallowed : allowed.Within text := by
    have hmoved : moved.Within text := hmarked.moveTo rest
    simp only [allowed]
    split
    · exact hmoved
    · exact hmoved
  refine allowed.stays_dropStale.goesOn hallowed fun l' hl' => goesOn_dispatch ?_
  rwa [Within, cursor_unwind]

end Lexer

/-- What the lexer stops at from a state on stands in the text. -/
theorem inText_of_scanFrom {n : ℕ} {l : Lexer} (hl : l.Within text)
    (h : (scanFrom n l).fault = some f) : f.InText text := by
  fun_induction scanFrom n l with
  | case1 =>
    cases h
    exact .malformed
  | case2 => cases h
  | case3 l n _ l' hstep ih =>
    have hl' := Lexer.goesOn_step hl
    rw [hstep] at hl'
    exact ih hl' h
  | case4 l n _ f' hstep =>
    cases h
    exact (Lexer.goesOn_step hl).of_error hstep

/-- **What the lexer stops at stands in the text.** -/
theorem inText_of_scan (h : (scan text).fault = some f) : f.InText text :=
  inText_of_scanFrom (l := .start text) List.suffix_rfl h

end Yaml

end SemverRange
