import SemverRange.Proofs.Settings.JsonValue
import SemverRange.Proofs.Text.Utf8
import SemverRange.Settings.Json

/-!
# What the JSON reader gives up at

The reader stops at what is not in the format, at a numeral that is too long, and at collections
that lie too deep.  The last two stand in the text: it has a run of so many digits, or so many
opening brackets.  What is read is a value of the kinds that the format has, with no numbers but
those of its numerals; hence it can be shown.

Each reader of a part leaves an end of the text that it was given, and so all that the readers see
is in the text.

## Main definitions

* `Json.Stop.Caused` — the text has what the reader stops at.
* `Json.Reads` — what is read is good, or the text has what the reader stops at.

## Main results

* `Json.reads_value`, `Json.reads_items`, `Json.reads_members` — the readers of values, lists and
  mappings, each in terms of the others.
* `Json.isJson_of_parse`, `Json.caused_of_parse` — **what is read is a value of the format, and what
  the reader stops at stands in the text.**
-/

namespace SemverRange

namespace Json

open Document (EntriesJson)

/-- The character opens a list or a mapping. -/
def isOpening (c : Char) : Bool := c = '[' || c = '\x7b'

/-- The text has what the reader stops at, where `room` collections can lie in one another. -/
inductive Stop.Caused (room : Nat) (cs : List Char) : Stop → Prop
  | wrong (complaint : Complaint) (left : Nat) : Caused room cs (.wrong complaint left)
  | ofNumeral {ds : List Char} (hwithin : ds <:+: cs) (hdigits : ∀ c ∈ ds, c.isDigit = true)
      (hlong : Numeral.limit < ds.length) :
      Caused room cs (.ofNumeral (.tooLongToRead ds.length))
  | tooDeep (isList : Bool) (h : room < cs.countP isOpening) : Caused room cs (.tooDeep isList)

variable {α β : Type} {P : α → Prop} {Q : β → Prop} {room : Nat} {cs ds : List Char}

/-- What stands at the end of a text stands in the text. -/
theorem Stop.Caused.mono {s : Stop} (h : s.Caused room cs) (hsuffix : cs <:+ ds) :
    s.Caused room ds := by
  cases h with
  | wrong complaint left => exact .wrong complaint left
  | ofNumeral hwithin hdigits hlong =>
    exact .ofNumeral (hwithin.trans hsuffix.isInfix) hdigits hlong
  | tooDeep isList h => exact .tooDeep isList (h.trans_le (hsuffix.sublist.countP_le))

/-- Behind an opening bracket there is room for one collection less. -/
theorem Stop.Caused.nested {s : Stop} {c : Char} (hc : isOpening c = true)
    (h : s.Caused (room - 1) cs) : s.Caused room (c :: cs) := by
  cases h with
  | wrong complaint left => exact .wrong complaint left
  | ofNumeral hwithin hdigits hlong =>
    exact .ofNumeral (hwithin.trans (List.suffix_cons c cs).isInfix) hdigits hlong
  | tooDeep isList h =>
    refine .tooDeep isList ?_
    rw [List.countP_cons_of_pos hc]
    omega

/-- A reader of the text gives a good value and an end of the text, or else the text has what it
stops at. -/
inductive Reads (P : α → Prop) (room : Nat) (cs : List Char) :
    Except Stop (α × Shorter cs) → Prop
  | ok {a : α} {rest : Shorter cs} (ha : P a) (hrest : rest.1 <:+ cs) :
    Reads P room cs (.ok (a, rest))
  | error {s : Stop} (h : s.Caused room cs) : Reads P room cs (.error s)

/-- A reader goes on with what another one left, whatever their texts have to do with each other. -/
theorem Reads.bind {room' : Nat} {x : Except Stop (α × Shorter cs)}
    {f : α × Shorter cs → Except Stop (β × Shorter ds)} (hx : Reads P room cs x)
    (hstop : ∀ s : Stop, s.Caused room cs → s.Caused room' ds)
    (hf : ∀ a rest, P a → rest.1 <:+ cs → Reads Q room' ds (f (a, rest))) :
    Reads Q room' ds (x >>= f) := by
  cases hx with
  | ok ha hrest => exact hf _ _ ha hrest
  | error h => exact .error (hstop _ h)

/-- A reader goes on with what another one left of an end of the text. -/
theorem Reads.bind_of_suffix {x : Except Stop (α × Shorter cs)}
    {f : α × Shorter cs → Except Stop (β × Shorter ds)} (hx : Reads P room cs x)
    (hsuffix : cs <:+ ds)
    (hf : ∀ a rest, P a → rest.1 <:+ ds → Reads Q room ds (f (a, rest))) :
    Reads Q room ds (x >>= f) :=
  hx.bind (fun _ h => h.mono hsuffix) fun a rest ha hrest => hf a rest ha (hrest.trans hsuffix)

theorem skip_suffix (cs : List Char) : skip cs <:+ cs := List.dropWhile_suffix isSpace

/-- Behind white space a character has an end of the text behind it. -/
theorem suffix_of_skip {c : Char} {rest : List Char} (h : skip cs = c :: rest) : rest <:+ cs :=
  (List.suffix_cons c rest).trans (h ▸ skip_suffix cs)

/-- A reader of what an opening bracket opens has room for one collection less. -/
theorem Reads.bind_opened {c : Char} (hc : isOpening c = true)
    {x : Except Stop (α × Shorter (skip cs))}
    {f : α × Shorter (skip cs) → Except Stop (β × Shorter (c :: cs))}
    (hx : Reads P (room - 1) (skip cs) x)
    (hf : ∀ a rest, P a → rest.1 <:+ c :: cs → Reads Q room (c :: cs) (f (a, rest))) :
    Reads Q room (c :: cs) (x >>= f) :=
  hx.bind (fun _ h => (h.mono (skip_suffix cs)).nested hc) fun a rest ha hrest =>
    hf a rest ha ((hrest.trans (skip_suffix cs)).trans (List.suffix_cons c cs))

/-- Where there is no room, a bracket opens what lies too deep. -/
theorem Stop.Caused.opened {c : Char} (hc : isOpening c = true) (hroom : room = 0)
    (isList : Bool) : (Stop.tooDeep isList).Caused room (c :: cs) := by
  refine .tooDeep isList ?_
  rw [List.countP_cons_of_pos hc, hroom]
  omega

/-! ### Strings, words and numbers -/

theorem reads_stringBody (start : Nat) : Reads (fun _ => True) room cs (stringBody start cs) := by
  fun_induction stringBody start cs with
  | case1 => exact .error (.wrong _ _)
  | case2 rest => exact .ok trivial (List.suffix_cons _ rest)
  | case3 => exact .error (.wrong _ _)
  | case4 rest => exact .error (.wrong _ _)
  | case5 rest n _ _ ih =>
    have hsuffix : rest.drop 4 <:+ '\\' :: 'u' :: rest :=
      (List.drop_suffix 4 rest).trans (List.drop_suffix 2 ('\\' :: 'u' :: rest))
    exact ih.bind_of_suffix hsuffix fun _ _ _ h => .ok trivial h
  | case6 => exact .error (.wrong _ _)
  | case7 c rest _ n _ ih =>
    have hsuffix : rest <:+ '\\' :: c :: rest := List.drop_suffix 2 ('\\' :: c :: rest)
    exact ih.bind_of_suffix hsuffix fun _ _ _ h => .ok trivial h
  | case8 => exact .error (.wrong _ _)
  | case9 c rest _ _ _ _ _ ih =>
    have hsuffix : rest <:+ c :: rest := List.suffix_cons c rest
    exact ih.bind_of_suffix hsuffix fun _ _ _ h => .ok trivial h

/-- The digits before the point stand in the text. -/
theorem NumberText.wholeOf_isInfix (cs : List Char) : wholeOf cs <:+: cs := by
  unfold wholeOf
  split
  · next rest => exact (List.prefix_append ['0'] rest).isInfix
  · exact (List.takeWhile_prefix _).isInfix

theorem NumberText.isDigit_of_mem_wholeOf {c : Char} (h : c ∈ wholeOf cs) : c.isDigit = true := by
  unfold wholeOf at h
  split at h
  · obtain rfl := List.mem_singleton.1 h
    rfl
  · exact all_takeWhile c h

theorem NumberText.whole_of_unsigned? {negative : Bool} {t : NumberText}
    (h : unsigned? negative cs = some t) : t.whole = wholeOf cs := by
  unfold unsigned? at h
  split at h
  · cases h
  · obtain rfl := Option.some.inj h
    rfl

theorem NumberText.whole_of_scan? {t : NumberText} (h : scan? cs = some t) :
    t.whole <:+: cs ∧ ∀ c ∈ t.whole, c.isDigit = true := by
  unfold scan? at h
  split at h
  · next rest =>
    rw [whole_of_unsigned? h]
    exact ⟨(wholeOf_isInfix rest).trans (List.suffix_cons _ rest).isInfix,
      fun c hc => isDigit_of_mem_wholeOf hc⟩
  · rw [whole_of_unsigned? h]
    exact ⟨wholeOf_isInfix cs, fun c hc => isDigit_of_mem_wholeOf hc⟩

/-- A number is too long, or it is one of the format. -/
theorem NumberText.value_cases {t : NumberText} (hdigits : ∀ c ∈ t.whole, c.isDigit = true) :
    (∃ d : Document, t.value = .ok d ∧ d.IsJson) ∨
    Numeral.limit < t.whole.length ∧ t.value = .error (.tooLongToRead t.whole.length) := by
  unfold value
  split
  · by_cases hlength : t.whole.length ≤ Numeral.limit
    · refine .inl ⟨_, ?_, Document.isJson_int hdigits hlength t.negative⟩
      rw [Numeral.read_eq_ok hlength]
      rfl
    · refine .inr ⟨Nat.lt_of_not_le hlength, ?_⟩
      rw [Numeral.read, if_neg hlength]
      rfl
  · exact .inl ⟨_, rfl, .float _⟩

theorem isJson_of_mem_words {w : List Char × Document} (h : w ∈ words) : w.2.IsJson := by
  simp only [words, List.mem_cons, List.not_mem_nil, or_false] at h
  rcases h with rfl | rfl | rfl | rfl | rfl | rfl <;> constructor

theorem reads_simple : Reads Document.IsJson room cs (simple cs) := by
  unfold simple
  split
  · exact .error (.wrong _ _)
  · next c rest =>
    split
    · next w d hw =>
      have hsuffix : rest.drop (w.length - 1) <:+ c :: rest :=
        (List.drop_suffix _ rest).trans (List.suffix_cons c rest)
      exact .ok (isJson_of_mem_words (List.mem_of_find?_eq_some hw)) hsuffix
    · split
      · next t ht =>
        obtain ⟨hwithin, hdigits⟩ := NumberText.whole_of_scan? ht
        rcases NumberText.value_cases hdigits with ⟨d, hd, hjson⟩ | ⟨hlong, hfault⟩
        · rw [hd]
          exact .ok hjson (List.drop_suffix _ _)
        · rw [hfault]
          exact .error (.ofNumeral hwithin hdigits hlong)
      · exact .error (.wrong _ _)

/-! ### Values, lists and mappings -/

/-- A value is read if the readers of shorter lists and mappings read. -/
theorem reads_value
    (hitems : ∀ room ds, ds.length < cs.length →
      Reads (fun items => ∀ d ∈ items, d.IsJson) room ds (items room ds))
    (hmembers : ∀ room ds, ds.length < cs.length →
      Reads EntriesJson room ds (members room [] ds)) :
    Reads Document.IsJson room cs (value room cs) := by
  unfold value
  split
  · next rest =>
    have hsuffix : rest <:+ '"' :: rest := List.suffix_cons _ rest
    exact (reads_stringBody _).bind_of_suffix hsuffix fun points tail _ htail =>
      .ok (.text _) htail
  · next rest =>
    have hless : (skip rest).length < ('[' :: rest).length :=
      Nat.lt_succ_of_le (length_skip_le rest)
    dsimp only
    split
    · next hroom => exact .error (.opened rfl hroom true)
    · split
      · next tail htail =>
        have hsuffix : tail <:+ '[' :: rest :=
          (suffix_of_skip htail).trans (List.suffix_cons _ rest)
        exact .ok (.list (List.forall_mem_nil _)) hsuffix
      · exact (hitems (room - 1) _ hless).bind_opened rfl fun items last hjson hlast =>
          .ok (.list hjson) hlast
  · next rest =>
    have hless : (skip rest).length < ('\x7b' :: rest).length :=
      Nat.lt_succ_of_le (length_skip_le rest)
    dsimp only
    split
    · next hroom => exact .error (.opened rfl hroom false)
    · split
      · next tail htail =>
        have hsuffix : tail <:+ '\x7b' :: rest :=
          (suffix_of_skip htail).trans (List.suffix_cons _ rest)
        exact .ok (.map Document.textKeys_nil (List.forall_mem_nil _)) hsuffix
      · exact (hmembers (room - 1) _ hless).bind_opened rfl fun es last hjson hlast =>
          .ok hjson.isJson hlast
  · exact reads_simple

/-- A list is read if the reader of its first value and those of shorter lists read. -/
theorem reads_items (hvalue : Reads Document.IsJson room cs (value room cs))
    (hitems : ∀ ds, ds.length < cs.length →
      Reads (fun items => ∀ d ∈ items, d.IsJson) room ds (items room ds)) :
    Reads (fun items => ∀ d ∈ items, d.IsJson) room cs (items room cs) := by
  unfold items
  refine hvalue.bind (fun s h => h) fun d rest hd hrest => ?_
  dsimp only
  split
  · next tail htail =>
    exact .ok (List.forall_mem_singleton.2 hd) ((suffix_of_skip htail).trans hrest)
  · next tail htail =>
    have hsuffix : skip tail <:+ cs :=
      ((skip_suffix tail).trans (suffix_of_skip htail)).trans hrest
    have hless : (skip tail).length < cs.length :=
      (length_skip_le tail).trans_lt ((length_lt_of_skip htail).trans rest.2)
    exact (hitems _ hless).bind_of_suffix hsuffix fun items last hjson hlast =>
      .ok (List.forall_mem_cons.2 ⟨hd, hjson⟩) hlast
  · exact .error (.wrong _ _)

/-- Entries are added to those that were read if the readers of shorter texts read. -/
theorem reads_members {entries : List (Document × Document)} (hentries : EntriesJson entries)
    (hvalue : ∀ ds, ds.length < cs.length → Reads Document.IsJson room ds (value room ds))
    (hmembers : ∀ entries ds, EntriesJson entries → ds.length < cs.length →
      Reads EntriesJson room ds (members room entries ds)) :
    Reads EntriesJson room cs (members room entries cs) := by
  unfold members
  split
  · next rest =>
    have hsuffix : rest <:+ '"' :: rest := List.suffix_cons _ rest
    refine (reads_stringBody _).bind_of_suffix hsuffix fun points afterName _ hname => ?_
    dsimp only
    split
    · next afterColon hcolon =>
      have hcolonSuffix : skip afterColon <:+ '"' :: rest :=
        ((skip_suffix afterColon).trans (suffix_of_skip hcolon)).trans hname
      have hless : (skip afterColon).length < ('"' :: rest).length := by
        have h1 := length_lt_of_skip hcolon
        have h2 := length_skip_le afterColon
        have h3 := afterName.2
        rw [List.length_cons]
        omega
      refine (hvalue _ hless).bind_of_suffix hcolonSuffix fun d afterValue hd hafter => ?_
      have hjson := hentries.insert (joinSurrogates points) hd
      dsimp only
      split
      · next tail htail =>
        exact .ok hjson ((suffix_of_skip htail).trans hafter)
      · next tail htail =>
        have htailSuffix : skip tail <:+ '"' :: rest :=
          ((skip_suffix tail).trans (suffix_of_skip htail)).trans hafter
        have hlessTail : (skip tail).length < ('"' :: rest).length := by
          have h1 := length_lt_of_skip htail
          have h2 := length_skip_le tail
          have h3 := afterValue.2
          omega
        exact (hmembers _ _ hjson hlessTail).bind_of_suffix htailSuffix
          fun es last hes hlast => .ok hes hlast
      · exact .error (.wrong _ _)
    · exact .error (.wrong _ _)
  · exact .error (.wrong _ _)

/-- The readers of values, lists and mappings call one another on ends of the text; the induction
is on the length of the text, and at the same length a list is read by way of its first value. -/
theorem reads_of_length (n : Nat) : ∀ room cs, cs.length = n →
    Reads Document.IsJson room cs (value room cs) ∧
    Reads (fun items => ∀ d ∈ items, d.IsJson) room cs (items room cs) ∧
    ∀ entries, EntriesJson entries → Reads EntriesJson room cs (members room entries cs) := by
  induction n using Nat.strongRecOn with
  | ind n ih =>
    rintro room cs rfl
    have hvalue : Reads Document.IsJson room cs (value room cs) :=
      reads_value (fun room ds h => (ih _ h room ds rfl).2.1)
        fun room ds h => (ih _ h room ds rfl).2.2 [] ⟨Document.textKeys_nil, List.forall_mem_nil _⟩
    refine ⟨hvalue, reads_items hvalue fun ds h => (ih _ h room ds rfl).2.1, fun es hes => ?_⟩
    exact reads_members hes (fun ds h => (ih _ h room ds rfl).1)
      fun es ds hes h => (ih _ h room ds rfl).2.2 es hes

/-! ### Whole texts -/

/-- A whole text is read as a value of the format, or it has what the reader stops at. -/
theorem whole_cases (cs : List Char) : (∃ d : Document, whole cs = .ok d ∧ d.IsJson) ∨
    ∃ s : Stop, whole cs = .error s ∧ s.Caused depthLimit cs := by
  unfold whole
  split
  · exact .inr ⟨_, rfl, .wrong _ _⟩
  · have hvalue := (reads_of_length _ depthLimit (skip cs) rfl).1
    cases hx : value depthLimit (skip cs) with
    | error s =>
      rw [hx] at hvalue
      cases hvalue with
      | error h => exact .inr ⟨s, rfl, h.mono (skip_suffix cs)⟩
    | ok p =>
      obtain ⟨d, rest⟩ := p
      rw [hx] at hvalue
      cases hvalue with
      | ok hd _ =>
        cases hskip : skip rest.1 with
        | nil =>
          refine .inl ⟨d, ?_, hd⟩
          simp only [bind, Except.bind, hskip]
          rfl
        | cons c extra =>
          refine .inr ⟨_, ?_, .wrong .extraData (c :: extra).length⟩
          simp only [bind, Except.bind, hskip]
          rfl

/-- **What is read is a value of the format.** -/
theorem isJson_of_parse {d : Document} (h : parse cs = .ok d) : d.IsJson := by
  rw [parse, mapError_eq_ok] at h
  rcases whole_cases cs with ⟨d', hd', hjson⟩ | ⟨s, hs, -⟩
  · rw [hd'] at h
    obtain rfl := Except.ok.inj h
    exact hjson
  · rw [hs] at h
    cases h

/-- What is read can be shown. -/
theorem shown_of_parse {d : Document} (h : parse cs = .ok d) : d.Shown := (isJson_of_parse h).shown

/-- **What the reader stops at stands in the text.** -/
theorem caused_of_parse {f : Fault} (h : parse cs = .error f) :
    ∃ s : Stop, s.Caused depthLimit cs ∧ s.toFault cs = f := by
  rcases whole_cases cs with ⟨d, hd, -⟩ | ⟨s, hs, hcaused⟩
  · rw [parse, hd] at h
    cases h
  · rw [parse, hs] at h
    exact ⟨s, hcaused, Except.error.inj h⟩

end Json

end SemverRange
