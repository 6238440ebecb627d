import SemverRange.Numeric.Digit
import SemverRange.Settings.Document
import SemverRange.Text.Lines

/-!
# Settings documents in JSON

The reader accepts a little more than the format: the words `NaN` and `Infinity`, the
latter also with a minus sign, stand for the floating-point numbers of that name.  A
number with a fraction or an exponent is a floating-point number, any other an
integer.  Of several entries with one name the last one counts, in the place of the
first.  Lists and mappings lie in one another only so deep.

A reading function takes the text that is left and gives what it read with the text
that is left then, which is shorter.  So a place in the text is told by how much is
left of it there.

## Main definitions

* `Json.Fault` — why a text is refused, and where.
* `Json.value` — a value at the head of a text.
* `Json.parse` — the value that a whole text stands for.
-/

namespace SemverRange

namespace Json

/-- What is wrong with a text. -/
inductive Complaint
  | valueExpected
  | nameExpected
  | colonExpected
  | commaExpected
  | extraData
  | controlCharacter
  | unterminated
  | badEscape
  | badUnicodeEscape
  | byteOrderMark
  deriving DecidableEq, Repr

/-- The wording of the complaint. -/
def Complaint.message : Complaint → String
  | valueExpected => "Expecting value"
  | nameExpected => "Expecting property name enclosed in double quotes"
  | colonExpected => "Expecting ':' delimiter"
  | commaExpected => "Expecting ',' delimiter"
  | extraData => "Extra data"
  | controlCharacter => "Invalid control character at"
  | unterminated => "Unterminated string starting at"
  | badEscape => "Invalid \\escape"
  | badUnicodeEscape => "Invalid \\uXXXX escape"
  | byteOrderMark => "Unexpected UTF-8 BOM (decode using utf-8-sig)"

/-- Why the reader stops. -/
inductive Stop
  /-- Something is wrong where so many characters are left. -/
  | wrong (complaint : Complaint) (left : Nat)
  /-- A numeral is too long. -/
  | ofNumeral (f : Numeral.Fault)
  /-- A list, or else a mapping, lies too deep in others. -/
  | tooDeep (isList : Bool)
  deriving DecidableEq, Repr

/-- How many lists and mappings can lie in one another. -/
def depthLimit : Nat := 990

/-- A text that is shorter than `cs`. -/
abbrev Shorter (cs : List Char) := { rest : List Char // rest.length < cs.length }

/-- White space between the parts of a text. -/
def isSpace (c : Char) : Bool := c = ' ' || c = '\t' || c = '\n' || c = '\r'

/-- The text without the white space at its head. -/
def skip (cs : List Char) : List Char := cs.dropWhile isSpace

theorem length_skip_le (cs : List Char) : (skip cs).length ≤ cs.length :=
  (List.dropWhile_suffix isSpace).length_le

theorem length_lt_of_skip {cs rest : List Char} {c : Char} (h : skip cs = c :: rest) :
    rest.length < cs.length := by
  have := length_skip_le cs
  rw [h, List.length_cons] at this
  omega

/-- The code point that a letter after a backslash stands for. -/
def escaped? : Char → Option Nat
  | '"' => some 0x22
  | '\\' => some 0x5C
  | '/' => some 0x2F
  | 'b' => some 0x08
  | 'f' => some 0x0C
  | 'n' => some 0x0A
  | 'r' => some 0x0D
  | 't' => some 0x09
  | _ => none

/-- The code point that four digits after `\u` stand for, with the text after them.  The
text may not end with the digits, because a quote has to follow. -/
def unicodeEscape? (cs : List Char) : Option (Nat × List Char) :=
  if cs.length ≤ 4 then none else (ofDigits? 16 (cs.take 4)).map fun n => (n, cs.drop 4)

/-- The text up to a quote, which opened where `start` characters were left. -/
def stringBody (start : Nat) (cs : List Char) : Except Stop (List Nat × Shorter cs) :=
  match cs with
  | [] => throw (.wrong .unterminated start)
  | '"' :: rest => pure ([], ⟨rest, Nat.lt_succ_self _⟩)
  | ['\\'] => throw (.wrong .unterminated start)
  | '\\' :: 'u' :: rest =>
    match unicodeEscape? rest with
    | none => throw (.wrong .badUnicodeEscape (rest.length + 1))
    | some (n, _) => do
      let (points, tail) ← stringBody start (rest.drop 4)
      pure (n :: points, ⟨tail.1, by
        have := tail.2
        simp only [List.length_drop, List.length_cons] at this ⊢
        omega⟩)
  | '\\' :: c :: rest =>
    match escaped? c with
    | none => throw (.wrong .badEscape (rest.length + 2))
    | some n => do
      let (points, tail) ← stringBody start rest
      pure (n :: points, ⟨tail.1, Nat.lt_succ_of_lt (Nat.lt_succ_of_lt tail.2)⟩)
  | c :: rest =>
    if c.toNat < 0x20 then throw (.wrong .controlCharacter (rest.length + 1))
    else do
      let (points, tail) ← stringBody start rest
      pure (c.toNat :: points, ⟨tail.1, Nat.lt_succ_of_lt tail.2⟩)
termination_by cs.length

/-- The first half of a surrogate pair. -/
def isHighSurrogate (n : Nat) : Bool := 0xD800 ≤ n && n ≤ 0xDBFF

/-- The second half of a surrogate pair. -/
def isLowSurrogate (n : Nat) : Bool := 0xDC00 ≤ n && n ≤ 0xDFFF

/-- Halves of surrogate pairs joined where two fit together. -/
def joinSurrogates : List Nat → List Nat
  | m :: n :: ns =>
    if isHighSurrogate m && isLowSurrogate n then
      (0x10000 + (m - 0xD800) * 0x400 + (n - 0xDC00)) :: joinSurrogates ns
    else m :: joinSurrogates (n :: ns)
  | ns => ns

/-- The pieces of a number. -/
structure NumberText where
  /-- There is a minus sign. -/
  negative : Bool
  /-- The digits before the point. -/
  whole : List Char
  /-- The digits after the point, if there is one. -/
  fraction : List Char
  /-- The mark of the exponent with what follows it up to the last digit. -/
  exponent : List Char

namespace NumberText

/-- The number of characters. -/
def length (t : NumberText) : Nat :=
  (if t.negative then 1 else 0) + t.whole.length +
    (if t.fraction = [] then 0 else t.fraction.length + 1) + t.exponent.length

/-- The digits before the point: a zero alone, or digits of which the first is no zero. -/
def wholeOf : List Char → List Char
  | '0' :: _ => ['0']
  | cs => cs.takeWhile Char.isDigit

/-- The digits after the point at the head of a text, if there are any. -/
def fractionOf : List Char → List Char
  | '.' :: cs => cs.takeWhile Char.isDigit
  | _ => []

/-- The exponent at the head of a text, if there is a whole one. -/
def exponentOf : List Char → List Char
  | c :: cs =>
    if c = 'e' || c = 'E' then
      match cs with
      | s :: cs' =>
        if s = '+' || s = '-' then
          if (cs'.takeWhile Char.isDigit).isEmpty then [] else c :: s :: cs'.takeWhile Char.isDigit
        else if (cs.takeWhile Char.isDigit).isEmpty then []
        else c :: cs.takeWhile Char.isDigit
      | [] => []
    else []
  | [] => []

/-- The number that an exponent stands for. -/
def exponentValue : List Char → Int
  | _ :: '-' :: ds => -(Nat.ofDigitChars 10 ds 0 : Int)
  | _ :: '+' :: ds => Nat.ofDigitChars 10 ds 0
  | _ :: ds => Nat.ofDigitChars 10 ds 0
  | [] => 0

/-- The number after the digits `whole`, of which `rest` is what follows them. -/
def ofWhole (negative : Bool) (whole rest : List Char) : NumberText :=
  let fraction := fractionOf rest
  let rest := if fraction.isEmpty then rest else rest.drop (fraction.length + 1)
  { negative, whole, fraction, exponent := exponentOf rest }

/-- The longest number without a sign at the head of a text, with its sign from before. -/
def unsigned? (negative : Bool) (cs : List Char) : Option NumberText :=
  if (wholeOf cs).isEmpty then none
  else some (ofWhole negative (wholeOf cs) (cs.drop (wholeOf cs).length))

/-- The longest number at the head of a text. -/
def scan? : List Char → Option NumberText
  | '-' :: cs => unsigned? true cs
  | cs => unsigned? false cs

/-- The number that the pieces stand for: an integer if there is neither a fraction nor
an exponent. -/
def value (t : NumberText) : Except Numeral.Fault Document :=
  if t.fraction.isEmpty && t.exponent.isEmpty then do
    let n ← Numeral.read t.whole
    pure (.int (if t.negative then -(n : Int) else n))
  else
    let digits := Nat.ofDigitChars 10 (t.whole ++ t.fraction) 0
    pure (.float (.ofDecimal t.negative digits (exponentValue t.exponent - t.fraction.length)))

theorem length_pos_of_unsigned? {negative : Bool} {cs : List Char} {t : NumberText}
    (h : unsigned? negative cs = some t) : 0 < t.length := by
  unfold unsigned? at h
  split at h
  · cases h
  · next hne =>
    cases h
    have : 0 < (wholeOf cs).length := List.length_pos_iff.2 (by simpa using hne)
    simp only [length, ofWhole]
    omega

/-- A number has at least one digit. -/
theorem length_pos_of_scan? {cs : List Char} {t : NumberText} (h : scan? cs = some t) :
    0 < t.length := by
  unfold scan? at h
  split at h <;> exact length_pos_of_unsigned? h

end NumberText

/-- The words that stand for values. -/
def words : List (List Char × Document) :=
  [(['n', 'u', 'l', 'l'], .null), (['t', 'r', 'u', 'e'], .bool true),
    (['f', 'a', 'l', 's', 'e'], .bool false), (['N', 'a', 'N'], .nan none),
    (['I', 'n', 'f', 'i', 'n', 'i', 't', 'y'], .float (.infinite false)),
    (['-', 'I', 'n', 'f', 'i', 'n', 'i', 't', 'y'], .float (.infinite true))]

/-- A word or a number at the head of a text. -/
def simple (cs : List Char) : Except Stop (Document × Shorter cs) :=
  match hcs : cs with
  | [] => throw (.wrong .valueExpected 0)
  | c :: rest =>
    match words.find? fun w => w.1.isPrefixOf (c :: rest) with
    | some (w, d) => pure (d, ⟨rest.drop (w.length - 1), by
        simp only [List.length_drop, List.length_cons]
        omega⟩)
    | none =>
      match ht : NumberText.scan? (c :: rest) with
      | some t => do
        let d ← t.value.mapError .ofNumeral
        pure (d, ⟨(c :: rest).drop t.length, by
          have := NumberText.length_pos_of_scan? ht
          simp only [List.length_drop, List.length_cons]
          omega⟩)
      | none => throw (.wrong .valueExpected (rest.length + 1))

mutual

/-- A value at the head of a text, in which `room` more lists and mappings can lie in one
another. -/
def value (room : Nat) (cs : List Char) : Except Stop (Document × Shorter cs) :=
  match cs with
  | '"' :: rest => do
    let (points, tail) ← stringBody (rest.length + 1) rest
    pure (.text (joinSurrogates points), ⟨tail.1, Nat.lt_succ_of_lt tail.2⟩)
  | '[' :: rest => do
    if room = 0 then throw (.tooDeep true)
    match _h : skip rest with
    | ']' :: tail => pure (.list [], ⟨tail, Nat.lt_succ_of_lt (length_lt_of_skip _h)⟩)
    | _ =>
      let (ds, tail) ← items (room - 1) (skip rest)
      pure (.list ds, ⟨tail.1, Nat.lt_succ_of_lt
        (Nat.lt_of_lt_of_le tail.2 (length_skip_le rest))⟩)
  | '\x7b' :: rest => do
    if room = 0 then throw (.tooDeep false)
    match _h : skip rest with
    | '\x7d' :: tail => pure (.map [], ⟨tail, Nat.lt_succ_of_lt (length_lt_of_skip _h)⟩)
    | _ =>
      let (es, tail) ← members (room - 1) [] (skip rest)
      pure (.map es, ⟨tail.1, Nat.lt_succ_of_lt
        (Nat.lt_of_lt_of_le tail.2 (length_skip_le rest))⟩)
  | cs => simple cs
termination_by 2 * cs.length
decreasing_by
  all_goals
    have := length_skip_le rest
    simp only [List.length_cons]
    omega

/-- The values of a list up to its end, at least one. -/
def items (room : Nat) (cs : List Char) : Except Stop (List Document × Shorter cs) := do
  let (d, rest) ← value room cs
  match _h : skip rest.1 with
  | ']' :: tail => pure ([d], ⟨tail, Nat.lt_trans (length_lt_of_skip _h) rest.2⟩)
  | ',' :: tail => do
    let (ds, last) ← items room (skip tail)
    pure (d :: ds, ⟨last.1, by
      have h1 := length_lt_of_skip _h
      have h2 := length_skip_le tail
      have h3 := last.2
      have h4 := rest.2
      omega⟩)
  | tail => throw (.wrong .commaExpected tail.length)
termination_by 2 * cs.length + 1
decreasing_by
  · exact Nat.lt_succ_self _
  · have h1 := length_lt_of_skip _h
    have h2 := length_skip_le tail
    omega

/-- The entries of a mapping up to its end, at least one, added to `entries`. -/
def members (room : Nat) (entries : List (Document × Document)) (cs : List Char) :
    Except Stop (List (Document × Document) × Shorter cs) :=
  match cs with
  | '"' :: rest => do
    let (points, afterName) ← stringBody (rest.length + 1) rest
    let name := Document.text (joinSurrogates points)
    match _h1 : skip afterName.1 with
    | ':' :: afterColon => do
      let (d, afterValue) ← value room (skip afterColon)
      match _h2 : skip afterValue.1 with
      | '\x7d' :: tail => pure (Document.insert name d entries, ⟨tail, by
          have h1 := length_lt_of_skip _h1
          have h2 := length_lt_of_skip _h2
          have h3 := length_skip_le afterColon
          have h4 := afterName.2
          have h5 := afterValue.2
          simp only [List.length_cons]
          omega⟩)
      | ',' :: tail => do
        let (es, last) ← members room (Document.insert name d entries) (skip tail)
        pure (es, ⟨last.1, by
          have h1 := length_lt_of_skip _h1
          have h2 := length_lt_of_skip _h2
          have h3 := length_skip_le afterColon
          have h4 := afterName.2
          have h5 := afterValue.2
          have h6 := length_skip_le tail
          have h7 := last.2
          simp only [List.length_cons]
          omega⟩)
      | tail => throw (.wrong .commaExpected tail.length)
    | tail => throw (.wrong .colonExpected tail.length)
  | cs => throw (.wrong .nameExpected cs.length)
termination_by 2 * cs.length + 1
decreasing_by
  · have h1 := length_lt_of_skip _h1
    have h3 := length_skip_le afterColon
    simp only [List.length_cons]
    omega
  · have h1 := length_lt_of_skip _h1
    have h2 := length_lt_of_skip _h2
    have h3 := length_skip_le afterColon
    have h6 := length_skip_le tail
    simp only [List.length_cons]
    omega

end

/-- Why a text is refused. -/
inductive Fault
  /-- Something is wrong at a place, which is told in three ways. -/
  | wrong (complaint : Complaint) (line column pos : Nat)
  /-- A numeral is too long. -/
  | ofNumeral (f : Numeral.Fault)
  /-- A list, or else a mapping, lies too deep in others. -/
  | tooDeep (isList : Bool)
  deriving DecidableEq, Repr

/-- The fault that a reason to stop amounts to, in the text `source`. -/
def Stop.toFault (source : List Char) : Stop → Fault
  | wrong complaint left =>
    let pos := source.length - left
    .wrong complaint (lineAt source pos) (columnAt source pos) pos
  | ofNumeral f => .ofNumeral f
  | tooDeep isList => .tooDeep isList

/-- The wording of the fault. -/
def Fault.message : Fault → String
  | wrong complaint line column pos =>
    complaint.message ++ ": line " ++ toString line ++ " column " ++ toString column ++
      " (char " ++ toString pos ++ ")"
  | ofNumeral f => f.message
  | tooDeep isList =>
    "maximum recursion depth exceeded while decoding a JSON " ++
      (if isList then "array" else "object") ++ " from a unicode string"

/-- The value of a whole text, which has nothing after it but white space. -/
def whole (source : List Char) : Except Stop Document :=
  if source.head? = some '\uFEFF' then throw (.wrong .byteOrderMark source.length)
  else do
    let (d, rest) ← value depthLimit (skip source)
    match skip rest.1 with
    | [] => pure d
    | extra => throw (.wrong .extraData extra.length)

/-- The value that a text stands for. -/
def parse (source : List Char) : Except Fault Document :=
  (whole source).mapError (Stop.toFault source)

end Json

end SemverRange
