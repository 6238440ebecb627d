import Mathlib.Algebra.Group.Nat.Defs
import Mathlib.Data.List.Basic
import Mathlib.Data.Nat.Notation
import SemverRange.Text.Quoted

/-!
# What stands between quotes

A text that is shown between quotes can be read back: whatever would be mistaken for something else
is written with a backslash in front.  So no two texts are shown alike.  A text of which every
character can be seen, and which has neither quotes nor backslashes, is shown as it is.

## Main definitions

* `AreCodePoints` — the numbers are code points.
* `StandsForItself` — the character is shown as it is.
* `readPoint?` — the code point that stands at the head of what is between quotes.

## Main results

* `readPoint?_escapePoint` — what is written for a code point reads back.
* `quoted_inj` — **no two texts are shown alike**.
* `quotedChars_of_standsForItself` — a text of such characters is shown as it is.
-/

namespace SemverRange

/-! ### Digits in a number of places -/

theorem ofDigits?_append (base : ℕ) (ds : List Char) (d : Char) :
    ofDigits? base (ds ++ [d]) =
      (ofDigits? base ds).bind fun n => (digit? base d).map (n * base + ·) := by
  rw [ofDigits?, List.foldlM_append, ofDigits?]
  simp

/-- The digits of a number read back. -/
theorem ofDigits?_toDigits {base : ℕ} (hone : 1 < base) (hbase : base ≤ 16) (n : ℕ) :
    ofDigits? base (Nat.toDigits base n) = some n := by
  -- on the number, which is divided by the base at each step
  induction n using Nat.strongRecOn with
  | ind n ih =>
    by_cases hn : n < base
    · rw [Nat.toDigits_of_lt_base hn, ← List.nil_append [n.digitChar], ofDigits?_append,
        digit?_digitChar hn hbase]
      simp [ofDigits?]
    · have hle : base ≤ n := Nat.le_of_not_lt hn
      have hmod : n % base < base := Nat.mod_lt n (by omega)
      rw [Nat.toDigits_of_base_le hone hle, ofDigits?_append, digit?_digitChar hmod hbase,
        ih _ (Nat.div_lt_self (by omega) hone)]
      simp [Nat.div_add_mod']

/-- So they do with zeros in front. -/
theorem ofDigits?_padded {base : ℕ} (hone : 1 < base) (hbase : base ≤ 16) (width n : ℕ) :
    ofDigits? base (padded base width n) = some n := by
  have hzero : digit? base '0' = some 0 := digit?_digitChar (Nat.zero_lt_of_lt hone) hbase
  have hzeros (k : ℕ) (ds : List Char) :
      ofDigits? base (List.replicate k '0' ++ ds) = ofDigits? base ds := by
    induction k with
    | zero => rfl
    | succ k ih =>
      rw [← ih, List.replicate_succ, List.cons_append, ofDigits?, List.foldlM_cons, hzero,
        Option.map_some, Nat.zero_mul]
      rfl
  rw [padded, hzeros, ofDigits?_toDigits hone hbase]

/-- A number that fits the width has so many places. -/
theorem length_padded {base width n : ℕ} (hone : 1 < base) (hwidth : 0 < width)
    (hn : n < base ^ width) : (padded base width n).length = width := by
  have hdigits := (Nat.length_toDigits_le_iff hone hwidth).2 hn
  rw [padded, List.length_append, List.length_replicate]
  omega

/-! ### Code points -/

/-- The numbers are those of characters and of halves of surrogate pairs. -/
def AreCodePoints (points : List ℕ) : Prop := ∀ n ∈ points, n < 0x110000

/-- What can be seen is a character. -/
theorem toNat_ofNat_of_isPrintable {n : ℕ} (h : isPrintable n = true) :
    (Char.ofNat n).toNat = n := by
  rw [isPrintable, Bool.and_eq_true, decide_eq_true_eq, Bool.not_eq_true'] at h
  have hvalid : n.isValidChar := by
    by_contra hnot
    -- it would be a half of a surrogate pair, which cannot be seen
    have hhalf : 0xD800 ≤ n ∧ n ≤ 0xDFFF := by
      rw [Nat.isValidChar] at hnot
      omega
    have hhidden : Printable.hidden n = Printable.high := by
      rw [Printable.hidden]
      repeat rw [if_neg (by omega)]
      rw [if_pos (by omega)]
    have hmem : (0xD7FC, 0xF8FF) ∈ Printable.hidden n := by
      rw [hhidden]
      decide
    have hseen := List.any_eq_false.1 h.2 _ hmem
    simp only [Bool.and_eq_true, decide_eq_true_eq, not_and] at hseen
    omega
  rw [Char.ofNat, dif_pos hvalid]
  rfl

/-- The code point that the digits in the given number of places stand for. -/
def readNumber? (width : ℕ) (cs : List Char) : Option (ℕ × List Char) :=
  (ofDigits? 16 (cs.take width)).map (·, cs.drop width)

/-- The code point that stands at the head of what is between quotes, and what follows it. -/
def readPoint? : List Char → Option (ℕ × List Char)
  | '\\' :: 't' :: cs => some ('\t'.toNat, cs)
  | '\\' :: 'n' :: cs => some ('\n'.toNat, cs)
  | '\\' :: 'r' :: cs => some ('\r'.toNat, cs)
  | '\\' :: 'x' :: cs => readNumber? 2 cs
  | '\\' :: 'u' :: cs => readNumber? 4 cs
  | '\\' :: 'U' :: cs => readNumber? 8 cs
  | '\\' :: c :: cs => some (c.toNat, cs)
  | c :: cs => some (c.toNat, cs)
  | [] => none

theorem readNumber?_padded {width n : ℕ} (hwidth : 0 < width) (hn : n < 16 ^ width)
    (rest : List Char) : readNumber? width (padded 16 width n ++ rest) = some (n, rest) := by
  have hlength := length_padded (by decide) hwidth hn
  rw [readNumber?, List.take_left' hlength, List.drop_left' hlength,
    ofDigits?_padded (by decide) (by decide)]
  rfl

/-- A character that no letter of an escape can be taken for stands for itself. -/
theorem readPoint?_backslash {c : Char} (hc : c ∉ ['t', 'n', 'r', 'x', 'u', 'U'])
    (rest : List Char) : readPoint? ('\\' :: c :: rest) = some (c.toNat, rest) := by
  simp only [List.mem_cons, List.not_mem_nil, or_false, not_or] at hc
  rw [readPoint?]
  all_goals simp_all

/-- Nothing is read into a character that is no backslash. -/
theorem readPoint?_cons {c : Char} (hc : c ≠ '\\') (rest : List Char) :
    readPoint? (c :: rest) = some (c.toNat, rest) := by
  rw [readPoint?]
  all_goals simp_all

variable {quote : Char}

/-- **What is written for a code point reads back**, whatever follows it. -/
theorem readPoint?_escapePoint (hquote : quote ∈ ['\'', '"']) {n : ℕ} (hn : n < 0x110000)
    (rest : List Char) : readPoint? (escapePoint quote n ++ rest) = some (n, rest) := by
  have hletter : quote ∉ ['t', 'n', 'r', 'x', 'u', 'U'] := by
    rcases List.mem_pair.1 hquote with rfl | rfl
    · decide
    · decide
  unfold escapePoint
  split_ifs with hbackslash hmark htab hfeed hreturn hprintable hbyte hshort
  · rw [hbackslash]
    exact readPoint?_backslash (by decide) rest
  · rw [hmark]
    exact readPoint?_backslash hletter rest
  · rw [htab]
    rfl
  · rw [hfeed]
    rfl
  · rw [hreturn]
    rfl
  · have hchar := toNat_ofNat_of_isPrintable hprintable
    have hne : Char.ofNat n ≠ '\\' := fun heq => hbackslash (by rw [← hchar, heq])
    rw [List.singleton_append, readPoint?_cons hne, hchar]
  · exact readNumber?_padded (by decide) (by omega) rest
  · exact readNumber?_padded (by decide) (by omega) rest
  · exact readNumber?_padded (by decide) (by omega) rest

theorem flatMap_escapePoint_inj (hquote : quote ∈ ['\'', '"']) {ms ns : List ℕ}
    (hms : AreCodePoints ms) (hns : AreCodePoints ns)
    (h : ms.flatMap (escapePoint quote) = ns.flatMap (escapePoint quote)) : ms = ns := by
  have hnil {n : ℕ} {ns : List ℕ} (hn : n < 0x110000) :
      (n :: ns).flatMap (escapePoint quote) ≠ [] := by
    intro hempty
    have hread := readPoint?_escapePoint hquote hn (ns.flatMap (escapePoint quote))
    rw [← List.flatMap_cons, hempty] at hread
    cases hread
  induction ms generalizing ns with
  | nil =>
    cases ns with
    | nil => rfl
    | cons n ns => exact absurd h.symm (hnil (hns n List.mem_cons_self))
  | cons m ms ih =>
    cases ns with
    | nil => exact absurd h (hnil (hms m List.mem_cons_self))
    | cons n ns =>
      obtain ⟨hm, hms'⟩ := List.forall_mem_cons.1 hms
      obtain ⟨hn, hns'⟩ := List.forall_mem_cons.1 hns
      -- the code point in front is read from both, and the same is left of both
      have hread := readPoint?_escapePoint hquote hm (ms.flatMap (escapePoint quote))
      rw [← List.flatMap_cons, h, List.flatMap_cons, readPoint?_escapePoint hquote hn] at hread
      obtain ⟨rfl, hrest⟩ := Prod.mk.inj (Option.some.inj hread)
      rw [ih hms' hns' hrest.symm]

theorem quoteFor_mem (points : List ℕ) : quoteFor points ∈ ['\'', '"'] := by
  unfold quoteFor
  split <;> decide

/-- **No two texts are shown alike.** -/
theorem quoted_inj {ms ns : List ℕ} (hms : AreCodePoints ms) (hns : AreCodePoints ns) :
    quoted ms = quoted ns ↔ ms = ns := by
  refine ⟨fun h => ?_, fun h => by rw [h]⟩
  have hlist := congrArg String.toList h
  rw [quoted, quoted, String.toList_ofList, String.toList_ofList] at hlist
  -- the quote in front is the same, and so is all that stands between it and the other one
  obtain ⟨hquote, hbody⟩ := List.cons.inj hlist
  rw [← hquote] at hbody
  exact flatMap_escapePoint_inj (quoteFor_mem ms) hms hns (List.append_cancel_right hbody)

/-! ### Texts that are shown as they are -/

/-- The character can be seen, and is neither a quote nor a backslash. -/
structure StandsForItself (c : Char) : Prop where
  /-- It is one of the printable characters of ASCII, or another one. -/
  seen : ' ' ≤ c ∧ c ≤ '~' ∨ isPrintable c.toNat = true
  /-- It has no meaning between quotes. -/
  plain : c ∉ ['\'', '"', '\\']

theorem isPrintable_of_ascii {c : Char} (h : ' ' ≤ c ∧ c ≤ '~') : isPrintable c.toNat = true := by
  have all : ∀ n < 0x7F, 0x20 ≤ n → isPrintable n = true := by decide +kernel
  exact all c.toNat (Nat.lt_succ_of_le h.2) h.1

theorem StandsForItself.escapePoint_eq {c : Char} (h : StandsForItself c)
    (hquote : quote ∈ ['\'', '"']) : escapePoint quote c.toNat = [c] := by
  have hseen : isPrintable c.toNat = true := h.seen.elim isPrintable_of_ascii id
  have hne {n : ℕ} (hn : isPrintable n = false) : c.toNat ≠ n := by
    rintro rfl
    rw [hseen] at hn
    cases hn
  have hplain := h.plain
  simp only [List.mem_cons, List.not_mem_nil, or_false, not_or] at hquote hplain
  have hmark : c ≠ quote := by
    rcases hquote with rfl | rfl
    · exact hplain.1
    · exact hplain.2.1
  unfold escapePoint
  rw [if_neg fun heq => hplain.2.2 (Char.toNat_inj.1 heq),
    if_neg fun heq => hmark (Char.toNat_inj.1 heq), if_neg (hne rfl), if_neg (hne rfl),
    if_neg (hne rfl), if_pos hseen, Char.ofNat_toNat]

/-- **A text of characters that stand for themselves is shown as it is**, between apostrophes. -/
theorem quotedChars_of_standsForItself {cs : List Char} (h : ∀ c ∈ cs, StandsForItself c) :
    quotedChars cs = String.ofList ('\'' :: cs ++ ['\'']) := by
  have hquote : quoteFor (pointsOf cs) = '\'' := by
    have hnot : (pointsOf cs).contains '\''.toNat = false := by
      refine Bool.eq_false_iff.2 fun hmem => ?_
      obtain ⟨c, hc, heq⟩ := List.mem_map.1 (List.contains_iff_mem.1 hmem)
      rw [Char.toNat_inj.1 heq] at hc
      exact (h _ hc).plain (by decide)
    rw [quoteFor, hnot]
    rfl
  have hbody : (pointsOf cs).flatMap (escapePoint '\'') = cs := by
    have hself : ∀ c ∈ cs, escapePoint '\'' c.toNat = [c] := fun c hc =>
      (h c hc).escapePoint_eq List.mem_cons_self
    rw [pointsOf, List.flatMap_map, List.flatMap_congr hself, List.flatMap_singleton']
  rw [quotedChars, quoted, hquote, hbody]

end SemverRange
