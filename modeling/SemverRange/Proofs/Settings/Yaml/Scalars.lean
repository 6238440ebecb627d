import Mathlib.Algebra.Ring.Int.Defs
import Mathlib.Data.List.TakeWhile
import SemverRange.Proofs.Settings.Yaml.Scanning
import SemverRange.Settings.Yaml.Value

/-!
# Texts without a value

A scalar has no value where its text is not what its kind asks for: a word that is none of those for
a truth value, a day that the calendar does not have, or a number with a character that is no digit.
Which part of the text this is about is told by colons, and the base of an integer by how the text
starts.

## Main definitions

* `Yaml.integerParts`, `Yaml.floatParts` — the parts of a text that are read as numbers.
* `Yaml.OutOfRange` — a number of a date or a time is out of range.
* `Yaml.Senseless` — the text has no value of the kind.

## Main results

* `Yaml.failsFor_scalarValue` — **a text has a value of the kind unless it is senseless for it**.
-/

namespace SemverRange

namespace Yaml

/-- The parts of a text without sign that are read as integers, with their bases. -/
def integerParts (text : List ℕ) : List (ℕ × List ℕ) :=
  match charsOf text with
  | [] => []
  | ['0'] => []
  | '0' :: 'b' :: _ => [(2, text.drop 2)]
  | '0' :: 'x' :: _ => [(16, text.drop 2)]
  | '0' :: _ => [(8, text)]
  | _ => (colonParts text).map (10, ·)

/-- What is read as digits of a text, after a sign and the announcement of the base. -/
def digitsOf (base : ℕ) (text : List ℕ) : List Char :=
  skipBaseMark base (unsigned (numberChars text))

/-- The text of an integer without sign. -/
def integerText (text : List ℕ) : List ℕ := withoutSign (ungroup text)

/-- The text of a floating-point number without sign, in lower case. -/
def floatText (text : List ℕ) : List ℕ := withoutSign (lowered (ungroup text))

/-- The numbers of the date, or of the time of day, have the defect. -/
inductive OutOfRange (d : DateText) : MomentDefect → Prop
  | year (h : d.year < 1 ∨ 9999 < d.year) : OutOfRange d (.year d.year)
  | month (h : d.month < 1 ∨ 12 < d.month) : OutOfRange d .month
  | day (h : d.day < 1 ∨ Date.daysOfMonth d.year d.month < d.day) : OutOfRange d .day
  | hour {hour minute second : ℕ} {fraction : List Char} {offset : Option Int}
      (hclock : d.clock = some (hour, minute, second, fraction, offset)) (h : 23 < hour) :
      OutOfRange d .hour
  | minute {hour minute second : ℕ} {fraction : List Char} {offset : Option Int}
      (hclock : d.clock = some (hour, minute, second, fraction, offset)) (h : 59 < minute) :
      OutOfRange d .minute
  | second {hour minute second : ℕ} {fraction : List Char} {offset : Option Int}
      (hclock : d.clock = some (hour, minute, second, fraction, offset)) (h : 59 < second) :
      OutOfRange d .second
  | offset {hour minute second : ℕ} {fraction : List Char} {offset : Int}
      (hclock : d.clock = some (hour, minute, second, fraction, some offset))
      (h : offset ≤ -86400 ∨ 86400 ≤ offset) : OutOfRange d (.offset offset)

/-- The text has no value of the kind. -/
inductive Senseless (text : List ℕ) : Tag → Fault → Prop
  /-- It is none of the words for truth values. -/
  | notBool
      (h : String.ofList (charsOf (lowered text)) ∉ ["yes", "true", "on", "no", "false", "off"]) :
      Senseless text .bool (.notBool (lowered text))
  /-- It has not the form of a date. -/
  | notDate (h : dateText (withoutLastBreak (charsOf text)) = none) :
      Senseless text .timestamp .notDate
  /-- It has the form of a date, with a number out of range. -/
  | ofMoment {d : DateText} {defect : MomentDefect}
      (hdate : dateText (withoutLastBreak (charsOf text)) = some d) (h : OutOfRange d defect) :
      Senseless text .timestamp (.ofMoment defect)
  /-- It is empty. -/
  | emptyInteger (h : integerText text = []) : Senseless text .int .emptyNumber
  | emptyFloat (h : lowered (ungroup text) = []) : Senseless text .float .emptyNumber
  /-- A part of it has no digit, or has a character that is none. -/
  | notInteger {base : ℕ} {part : List ℕ} (hpart : (base, part) ∈ integerParts (integerText text))
      (h : digitsOf base part = [] ∨ ∃ c ∈ digitsOf base part, digit? base c = none) :
      Senseless text .int (.notInteger base part)
  /-- A part of it has too many digits. -/
  | longInteger {part : List ℕ} {ds : List Char}
      (hpart : (10, part) ∈ integerParts (integerText text)) (hstart : ds <+: digitsOf 10 part)
      (hdigits : ∀ c ∈ ds, (digit? 10 c).isSome = true) (hlong : Numeral.limit < ds.length) :
      Senseless text .int (.ofNumeral (.tooLongToRead ds.length))
  /-- A part of it is neither a decimal nor one of the three words. -/
  | notNumber {part : List ℕ} (hpart : part ∈ colonParts (floatText text))
      (hword : String.ofList (unsigned (numberChars part)) ∉ ["inf", "infinity", "nan"])
      (hdecimal : ∀ negative, decimal? negative (unsigned (numberChars part)) = none) :
      Senseless text .float (.notNumber part)
  /-- It has so many parts that their places are worth more than a number can be. -/
  | powerTooGreat {k : ℕ} {negative : Bool} (hk : k < (colonParts (floatText text)).length)
      (h : Binary64.ofInt (60 ^ k) = .infinite negative) : Senseless text .float .powerTooGreat

variable {text : List ℕ} {f : Fault}

/-! ### Truth values and dates -/

theorem failsFor_boolValue (text : List ℕ) : FailsFor (Senseless text .bool) (boolValue text) := by
  unfold boolValue
  dsimp only
  split
  · trivial
  · next hyes =>
    split
    · trivial
    · next hno =>
      have hnone : String.ofList (charsOf (lowered text)) ∉
          ["yes", "true", "on"] ++ ["no", "false", "off"] := fun h =>
        (List.mem_append.1 h).elim (fun h => hyes (List.contains_iff_mem.2 h)) fun h =>
          hno (List.contains_iff_mem.2 h)
      exact .notBool hnone

theorem failsFor_dateCheck (d : DateText) :
    FailsFor (OutOfRange d) (Date.check ⟨d.year, d.month, d.day⟩) := by
  unfold Date.check
  dsimp only
  split_ifs with hyear hmonth hday
  · exact .year hyear
  · exact .month hmonth
  · exact .day hday
  · trivial

theorem failsFor_momentCheck {d : DateText} {hour minute second microsecond : ℕ}
    {fraction : List Char} {offset : Option Int}
    (hclock : d.clock = some (hour, minute, second, fraction, offset)) :
    FailsFor (OutOfRange d)
      (Moment.check ⟨⟨d.year, d.month, d.day⟩, hour, minute, second, microsecond, offset⟩) := by
  have htime : FailsFor (OutOfRange d) (do
      Date.check ⟨d.year, d.month, d.day⟩
      if 23 < hour then throw .hour
      if 59 < minute then throw .minute
      if 59 < second then throw .second) :=
    (failsFor_dateCheck d).bind fun _ _ =>
      .ite (fun h => .hour hclock h) (.ite (fun h => .minute hclock h)
        (.ite (fun h => .second hclock h) trivial))
  cases offset with
  | none => exact htime
  | some n => exact .ite (fun h => .offset hclock h) htime

theorem failsFor_timestampValue (text : List ℕ) :
    FailsFor (Senseless text .timestamp) (timestampValue text) := by
  unfold timestampValue
  split
  · next hnone => exact .notDate hnone
  · next d hdate =>
    have htold {x : Except MomentDefect Unit} (hx : FailsFor (OutOfRange d) x) :
        FailsFor (Senseless text .timestamp) (x.mapError .ofMoment) :=
      EndsIn.mapError (hx.mono_error fun _ h => .ofMoment hdate h)
    dsimp only
    split
    · exact (htold (failsFor_dateCheck d)).bind fun _ _ => trivial
    · next hclock => exact (htold (failsFor_momentCheck hclock)).bind fun _ _ => trivial

/-! ### Numbers -/

/-- A part of a text is no integer to the base, or has too many digits. -/
inductive NoInteger (base : ℕ) (part : List ℕ) : Fault → Prop
  | noDigits (h : digitsOf base part = [] ∨ ∃ c ∈ digitsOf base part, digit? base c = none) :
      NoInteger base part (.notInteger base part)
  | tooLong {ds : List Char} (hbase : base = 10) (hstart : ds <+: digitsOf 10 part)
      (hdigits : ∀ c ∈ ds, (digit? 10 c).isSome = true) (hlong : Numeral.limit < ds.length) :
      NoInteger base part (.ofNumeral (.tooLongToRead ds.length))

theorem eq_nil_or_exists_of_takeWhile {p : Char → Bool} {cs : List Char}
    (h : (cs.takeWhile p).isEmpty = true ∨ (cs.takeWhile p).length < cs.length) :
    cs = [] ∨ ∃ c ∈ cs, p c = false := by
  by_cases hall : ∀ c ∈ cs, p c = true
  · rw [List.takeWhile_eq_self_iff.2 hall] at h
    exact .inl (List.isEmpty_iff.1 (h.resolve_right (Nat.lt_irrefl _)))
  · simp only [not_forall] at hall
    obtain ⟨c, hc, hp⟩ := hall
    exact .inr ⟨c, hc, Bool.eq_false_iff.2 hp⟩

theorem failsFor_readInteger (base : ℕ) (part : List ℕ) :
    FailsFor (NoInteger base part) (readInteger base part) := by
  unfold readInteger
  dsimp only
  refine .ite (fun hlong => ?_) (.ite (fun hdigits => .noDigits ?_) trivial)
  · obtain ⟨rfl, hlong⟩ := hlong
    exact .tooLong rfl (List.takeWhile_prefix _) (List.all_eq_true.1 List.all_takeWhile) hlong
  · refine (eq_nil_or_exists_of_takeWhile hdigits).imp_right fun ⟨c, hc, hnone⟩ => ?_
    exact ⟨c, hc, Option.isNone_iff_eq_none.1 (Option.isSome_eq_false_iff.1 hnone)⟩

/-- A text without colons is its only part. -/
theorem mem_colonParts_of_eq_singleton {part : List ℕ} (h : colonParts text = [part]) :
    text ∈ colonParts text := by
  have hjoined : [':'.toNat].intercalate (colonParts text) = text := List.intercalate_splitOn _
  rw [h, List.intercalate_singleton] at hjoined
  rw [h, hjoined]
  exact List.mem_cons_self

/-- The text of an integer without sign is empty, or one of its parts is no integer. -/
theorem failsFor_intBody (text : List ℕ) :
    FailsFor (fun f => text = [] ∧ f = .emptyNumber ∨
      ∃ p ∈ integerParts text, NoInteger p.1 p.2 f) (intBody text) := by
  have hpart {base : ℕ} {part : List ℕ} (hp : (base, part) ∈ integerParts text) :
      FailsFor (fun f => text = [] ∧ f = .emptyNumber ∨
        ∃ p ∈ integerParts text, NoInteger p.1 p.2 f) (readInteger base part) :=
    (failsFor_readInteger base part).mono_error fun _ h => .inr ⟨_, hp, h⟩
  unfold intBody
  -- how the text starts tells the base
  split
  · next hnil => exact .inl ⟨List.map_eq_nil_iff.1 hnil, rfl⟩
  · trivial
  · next hcs =>
    have hparts : integerParts text = [(2, text.drop 2)] := by
      rw [integerParts, hcs]
      rfl
    exact hpart (hparts ▸ List.mem_cons_self)
  · next hcs =>
    have hparts : integerParts text = [(16, text.drop 2)] := by
      rw [integerParts, hcs]
      rfl
    exact hpart (hparts ▸ List.mem_cons_self)
  · next h1 h2 h3 hcs =>
    have hparts : integerParts text = [(8, text)] := by
      rw [integerParts, hcs]
      split <;> simp_all
    exact hpart (hparts ▸ List.mem_cons_self)
  · next h1 h2 h3 h4 h5 =>
    have hparts : integerParts text = (colonParts text).map (10, ·) := by
      rw [integerParts]
      split <;> simp_all
    have hall {part : List ℕ} (h : part ∈ colonParts text) := hpart (hparts ▸ List.mem_map_of_mem h)
    split
    · next part hone => exact hall (mem_colonParts_of_eq_singleton hone)
    · exact (EndsIn.mapM fun _ h => hall h).bind fun _ _ => trivial

/-- A text is an integer unless it is senseless as one. -/
theorem failsFor_intValue (text : List ℕ) : FailsFor (Senseless text .int) (intValue text) := by
  unfold intValue
  refine EndsIn.bind ((failsFor_intBody _).mono_error ?_) fun _ _ => trivial
  rintro f (⟨hnil, rfl⟩ | ⟨⟨base, part⟩, hpart, hno⟩)
  · exact .emptyInteger hnil
  · cases hno with
    | noDigits h => exact .notInteger hpart h
    | tooLong hbase hstart hdigits hlong =>
      obtain rfl : base = 10 := hbase
      exact .longInteger hpart hstart hdigits hlong

/-- Whether a decimal has a sign before it does not matter for its form. -/
theorem decimal?_eq_none {negative : Bool} {cs : List Char} (h : decimal? negative cs = none)
    (negative' : Bool) : decimal? negative' cs = none := by
  simp only [decimal?, ite_eq_left_iff, Option.map_eq_none_iff] at h ⊢
  exact h

theorem failsFor_readFloat (part : List ℕ) :
    FailsFor (fun f => f = .notNumber part ∧
      String.ofList (unsigned (numberChars part)) ∉ ["inf", "infinity", "nan"] ∧
      ∀ negative, decimal? negative (unsigned (numberChars part)) = none) (readFloat part) := by
  unfold readFloat
  dsimp only
  split
  · trivial
  · next hinf =>
    split
    · trivial
    · next hnan =>
      split
      · trivial
      · next hdecimal =>
        refine ⟨rfl, ?_, decimal?_eq_none hdecimal⟩
        simp only [List.mem_cons, List.not_mem_nil, or_false, ← or_assoc]
        exact not_or.2 ⟨hinf, hnan⟩

/-- A power of sixty is no floating-point number. -/
theorem failsFor_sexagesimalFloat (sum : Binary64) (j : ℕ) (ds : List Binary64) :
    FailsFor (fun f => f = .powerTooGreat ∧
        ∃ k negative, k < j + ds.length ∧ Binary64.ofInt (60 ^ k) = .infinite negative)
      (sexagesimalFloat sum (60 ^ j) ds) := by
  induction ds generalizing sum j with
  | nil => trivial
  | cons d ds ih =>
    unfold sexagesimalFloat
    split
    · next negative h => exact ⟨rfl, j, negative, by simp, h⟩
    · refine (Int.pow_succ 60 j ▸ ih _ (j + 1)).mono_error ?_
      rintro f ⟨hf, k, negative, hk, h⟩
      exact ⟨hf, k, negative, by simp at *; omega, h⟩

/-- A text is a floating-point number unless it is senseless as one. -/
theorem failsFor_floatBody (text : List ℕ) :
    FailsFor (Senseless text .float) (floatBody (floatText text)) := by
  have hall {part : List ℕ} (hpart : part ∈ colonParts (floatText text)) :
      FailsFor (Senseless text .float) (readFloat part) :=
    (failsFor_readFloat part).mono_error fun _ ⟨hf, hword, hdecimal⟩ =>
      hf ▸ .notNumber hpart hword hdecimal
  unfold floatBody
  split
  · trivial
  split
  · next hone => exact hall (mem_colonParts_of_eq_singleton hone)
  · refine (EndsIn.mapM fun _ h => hall h).bind fun ds hds => ?_
    refine (failsFor_sexagesimalFloat (.zero false) 0 ds.reverse).mono_error ?_
    rintro f ⟨rfl, k, negative, hk, h⟩
    rw [Nat.zero_add, List.length_reverse, hds] at hk
    exact .powerTooGreat hk h

theorem failsFor_floatValue (place : ℕ) (text : List ℕ) :
    FailsFor (Senseless text .float) (floatValue place text) := by
  unfold floatValue
  dsimp only
  split
  · next hempty => exact .emptyFloat (List.isEmpty_iff.1 hempty)
  · split
    · trivial
    · exact (failsFor_floatBody text).bind fun _ _ => trivial

/-! ### Octets -/

theorem failsPlainly_base64 (place bits pads : ℕ) (cs : List Char) :
    FailsPlainly (base64 place bits pads cs) := by
  fun_induction base64 place bits pads cs with
  | case1 => trivial
  | case2 => rfl
  | case3 => trivial
  | case4 _ _ _ _ _ _ ih => exact ih
  | case5 _ _ _ _ _ ih => exact ih
  | case6 => assumption
  | case7 => assumption
  | case8 => exact EndsIn.map ‹_›
  | case9 => exact EndsIn.map ‹_›
  | case10 => exact EndsIn.map ‹_›

/-- **A text has a value of the kind, unless it is malformed or senseless for it.** -/
theorem failsFor_scalarValue (place : ℕ) (tag : Tag) (text : List ℕ) :
    FailsFor (fun f => f = .malformed ∨ Senseless text tag f) (scalarValue place tag text) := by
  have htold {x : Except Fault Document} (hx : FailsFor (Senseless text tag) x) :
      FailsFor (fun f => f = .malformed ∨ Senseless text tag f) x :=
    hx.mono_error fun _ => .inr
  cases tag with
  | bool => exact htold (failsFor_boolValue text)
  | int => exact htold (failsFor_intValue text)
  | float => exact htold (failsFor_floatValue place text)
  | timestamp => exact htold (failsFor_timestampValue text)
  | binary =>
    have hoctets : FailsPlainly (scalarValue place .binary text) :=
      .ite (fun _ => EndsIn.map (failsPlainly_base64 0 0 0 _)) rfl
    exact hoctets.mono_error fun _ => .inl
  | null | text => trivial
  | _ => exact .inl rfl

end Yaml

end SemverRange
