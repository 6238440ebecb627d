import Mathlib.Data.List.Basic
import Mathlib.Tactic.SplitIfs
import SemverRange.Text.Utf8

/-!
# What octets are texts

The reader of octets accepts those that some characters are stored as and no others: it leaves out
no character, and has one spelling for each.

## Main results

* `Utf8.encode_one_iff`, `Utf8.encode_two_iff`, `Utf8.encode_three_iff`, `Utf8.encode_four_iff` —
  the octets of a character.
* `Utf8.decode_eq_ok_iff` — **what is read is what is stored.**
-/

namespace SemverRange

theorem mapError_eq_ok {ε ε' α : Type} {x : Except ε α} {f : ε → ε'} {a : α} :
    x.mapError f = .ok a ↔ x = .ok a := by
  cases x <;> simp [Except.mapError]

namespace Utf8

/-! ### The octets of a character -/

/-- A character is no surrogate, and there are so many. -/
theorem char_bounds (c : Char) : c.toNat < 0xD800 ∨ 0xDFFF < c.toNat ∧ c.toNat < 0x110000 :=
  c.valid

/-- A number that no surrogate has is that of a character. -/
theorem exists_char {n : Nat} (h : n < 0xD800 ∨ 0xDFFF < n ∧ n < 0x110000) :
    ∃ c : Char, c.toNat = n := ⟨Char.ofNatAux n h, rfl⟩

/-- A character has one octet, two, three or four. -/
theorem encode_cases (c : Char) :
    (c.toNat ≤ 0x7F ∧ String.utf8EncodeChar c = [UInt8.ofNat c.toNat]) ∨
    ((0x80 ≤ c.toNat ∧ c.toNat ≤ 0x7FF) ∧ String.utf8EncodeChar c =
      [UInt8.ofNat (c.toNat / 64 % 32 + 0xC0), UInt8.ofNat (c.toNat % 64 + 0x80)]) ∨
    ((0x800 ≤ c.toNat ∧ c.toNat ≤ 0xFFFF) ∧ String.utf8EncodeChar c =
      [UInt8.ofNat (c.toNat / 4096 % 16 + 0xE0), UInt8.ofNat (c.toNat / 64 % 64 + 0x80),
        UInt8.ofNat (c.toNat % 64 + 0x80)]) ∨
    (0x10000 ≤ c.toNat ∧ String.utf8EncodeChar c =
      [UInt8.ofNat (c.toNat / 262144 % 8 + 0xF0), UInt8.ofNat (c.toNat / 4096 % 64 + 0x80),
        UInt8.ofNat (c.toNat / 64 % 64 + 0x80), UInt8.ofNat (c.toNat % 64 + 0x80)]) := by
  have hval : c.val.toNat = c.toNat := rfl
  unfold String.utf8EncodeChar
  simp only [hval]
  split_ifs with h1 h2 h3
  · exact .inl ⟨h1, rfl⟩
  · exact .inr (.inl ⟨⟨by omega, h2⟩, rfl⟩)
  · exact .inr (.inr (.inl ⟨⟨by omega, h3⟩, rfl⟩))
  · exact .inr (.inr (.inr ⟨by omega, rfl⟩))

theorem exists_octets (c : Char) :
    (∃ b₀, String.utf8EncodeChar c = [b₀]) ∨ (∃ b₀ b₁, String.utf8EncodeChar c = [b₀, b₁]) ∨
    (∃ b₀ b₁ b₂, String.utf8EncodeChar c = [b₀, b₁, b₂]) ∨
    ∃ b₀ b₁ b₂ b₃, String.utf8EncodeChar c = [b₀, b₁, b₂, b₃] := by
  rcases encode_cases c with ⟨-, h⟩ | ⟨-, h⟩ | ⟨-, h⟩ | ⟨-, h⟩
  · exact .inl ⟨_, h⟩
  · exact .inr (.inl ⟨_, _, h⟩)
  · exact .inr (.inr (.inl ⟨_, _, _, h⟩))
  · exact .inr (.inr (.inr ⟨_, _, _, _, h⟩))

theorem ofNat_eq_iff {n : Nat} {b : UInt8} (h : n < 256) : UInt8.ofNat n = b ↔ n = b.toNat := by
  rw [← UInt8.toNat_inj, UInt8.toNat_ofNat_of_lt' h]

theorem ite_le_iff {b k least other m : Nat} (h : least ≤ other) :
    (if b = k then other else least) ≤ m ↔ least ≤ m ∧ (b = k → other ≤ m) := by
  split_ifs with hb <;> omega

theorem le_ite_iff {b k greatest other m : Nat} (h : other ≤ greatest) :
    m ≤ (if b = k then other else greatest) ↔ m ≤ greatest ∧ (b = k → m ≤ other) := by
  split_ifs with hb <;> omega

variable {c : Char} {b₀ b₁ b₂ b₃ : UInt8}

theorem encode_one_iff :
    String.utf8EncodeChar c = [b₀] ↔ b₀.toNat < 0x80 ∧ c.toNat = b₀.toNat := by
  rcases encode_cases c with ⟨hc, h⟩ | ⟨hc, h⟩ | ⟨hc, h⟩ | ⟨hc, h⟩ <;> rw [h]
  · simp only [List.cons.injEq, and_true]
    rw [ofNat_eq_iff (by omega)]
    omega
  all_goals
    simp only [List.cons.injEq, reduceCtorEq, and_false, false_iff]
    omega

theorem encode_two_iff :
    String.utf8EncodeChar c = [b₀, b₁] ↔
      (0xC2 ≤ b₀.toNat ∧ b₀.toNat < 0xE0) ∧ (0x80 ≤ b₁.toNat ∧ b₁.toNat ≤ 0xBF) ∧
      c.toNat = (b₀.toNat - 0xC0) * 64 + (b₁.toNat - 0x80) := by
  rcases encode_cases c with ⟨hc, h⟩ | ⟨hc, h⟩ | ⟨hc, h⟩ | ⟨hc, h⟩ <;> rw [h]
  case inr.inl =>
    simp only [List.cons.injEq, and_true]
    rw [ofNat_eq_iff (by omega), ofNat_eq_iff (by omega)]
    omega
  all_goals
    simp only [List.cons.injEq, reduceCtorEq, and_false, false_iff]
    omega

theorem encode_three_iff :
    String.utf8EncodeChar c = [b₀, b₁, b₂] ↔
      (0xE0 ≤ b₀.toNat ∧ b₀.toNat < 0xF0) ∧
      ((if b₀.toNat = 0xE0 then 0xA0 else 0x80) ≤ b₁.toNat ∧
        b₁.toNat ≤ if b₀.toNat = 0xED then 0x9F else 0xBF) ∧
      (0x80 ≤ b₂.toNat ∧ b₂.toNat ≤ 0xBF) ∧
      c.toNat = ((b₀.toNat - 0xE0) * 64 + (b₁.toNat - 0x80)) * 64 + (b₂.toNat - 0x80) := by
  have hbounds := char_bounds c
  rw [ite_le_iff (by decide), le_ite_iff (by decide)]
  rcases encode_cases c with ⟨hc, h⟩ | ⟨hc, h⟩ | ⟨hc, h⟩ | ⟨hc, h⟩ <;> rw [h]
  case inr.inr.inl =>
    simp only [List.cons.injEq, and_true]
    rw [ofNat_eq_iff (by omega), ofNat_eq_iff (by omega), ofNat_eq_iff (by omega)]
    omega
  all_goals
    simp only [List.cons.injEq, reduceCtorEq, and_false, false_iff]
    omega

theorem encode_four_iff :
    String.utf8EncodeChar c = [b₀, b₁, b₂, b₃] ↔
      (0xF0 ≤ b₀.toNat ∧ b₀.toNat < 0xF5) ∧
      ((if b₀.toNat = 0xF0 then 0x90 else 0x80) ≤ b₁.toNat ∧
        b₁.toNat ≤ if b₀.toNat = 0xF4 then 0x8F else 0xBF) ∧
      (0x80 ≤ b₂.toNat ∧ b₂.toNat ≤ 0xBF) ∧ (0x80 ≤ b₃.toNat ∧ b₃.toNat ≤ 0xBF) ∧
      c.toNat = (((b₀.toNat - 0xF0) * 64 + (b₁.toNat - 0x80)) * 64 + (b₂.toNat - 0x80)) * 64 +
        (b₃.toNat - 0x80) := by
  have hbounds := char_bounds c
  rw [ite_le_iff (by decide), le_ite_iff (by decide)]
  rcases encode_cases c with ⟨hc, h⟩ | ⟨hc, h⟩ | ⟨hc, h⟩ | ⟨hc, h⟩ <;> rw [h]
  case inr.inr.inr =>
    simp only [List.cons.injEq, and_true]
    rw [ofNat_eq_iff (by omega), ofNat_eq_iff (by omega), ofNat_eq_iff (by omega),
      ofNat_eq_iff (by omega)]
    omega
  all_goals
    simp only [List.cons.injEq, reduceCtorEq, and_false, false_iff]
    omega

/-! ### Reading one character -/

variable {bs : List UInt8} {more bits least greatest n : Nat}

/-- What the first octet of a character tells, by the number of octets. -/
inductive Leads : Nat → Lead → Prop
  | one {b : Nat} (h : b < 0x80) : Leads b ⟨0, b, 0x80, 0xBF⟩
  | two {b : Nat} (h : 0xC2 ≤ b ∧ b < 0xE0) : Leads b ⟨1, b - 0xC0, 0x80, 0xBF⟩
  | three {b : Nat} (h : 0xE0 ≤ b ∧ b < 0xF0) : Leads b
      ⟨2, b - 0xE0, if b = 0xE0 then 0xA0 else 0x80, if b = 0xED then 0x9F else 0xBF⟩
  | four {b : Nat} (h : 0xF0 ≤ b ∧ b < 0xF5) : Leads b
      ⟨3, b - 0xF0, if b = 0xF0 then 0x90 else 0x80, if b = 0xF4 then 0x8F else 0xBF⟩

theorem leads_of_lead? {b : Nat} {l : Lead} (h : lead? b = some l) : Leads b l := by
  unfold lead? at h
  by_cases h1 : b < 0x80
  · rw [if_pos h1] at h
    exact Option.some.inj h ▸ .one h1
  by_cases h2 : b < 0xC2
  · rw [if_neg h1, if_pos h2] at h
    cases h
  by_cases h3 : b < 0xE0
  · rw [if_neg h1, if_neg h2, if_pos h3] at h
    exact Option.some.inj h ▸ .two ⟨by omega, h3⟩
  by_cases h4 : b < 0xF0
  · rw [if_neg h1, if_neg h2, if_neg h3, if_pos h4] at h
    exact Option.some.inj h ▸ .three ⟨by omega, h4⟩
  by_cases h5 : b < 0xF5
  · rw [if_neg h1, if_neg h2, if_neg h3, if_neg h4, if_pos h5] at h
    exact Option.some.inj h ▸ .four ⟨by omega, h5⟩
  · rw [if_neg h1, if_neg h2, if_neg h3, if_neg h4, if_neg h5] at h
    cases h

theorem Leads.lead?_eq {b : Nat} {l : Lead} (h : Leads b l) : lead? b = some l := by
  cases h with
  | one h => rw [lead?, if_pos h]
  | two h => rw [lead?, if_neg (by omega), if_neg (by omega), if_pos h.2]
  | three h => rw [lead?, if_neg (by omega), if_neg (by omega), if_neg (by omega), if_pos h.2]
  | four h =>
    rw [lead?, if_neg (by omega), if_neg (by omega), if_neg (by omega), if_neg (by omega),
      if_pos h.2]

theorem continued_zero : continued 0 bits least greatest bs = .ok bits := by
  rw [continued]

theorem continued_succ_nil_ne_ok : continued (more + 1) bits least greatest [] ≠ .ok n := by
  rw [continued]
  exact nofun

theorem continued_cons_eq_ok_iff {b : UInt8} :
    continued (more + 1) bits least greatest (b :: bs) = .ok n ↔
      (least ≤ b.toNat ∧ b.toNat ≤ greatest) ∧
      continued more (bits * 64 + (b.toNat - 0x80)) 0x80 0xBF bs = .ok n := by
  rw [continued]
  split_ifs with h
  · rw [mapError_eq_ok]
    exact (and_iff_right h).symm
  · exact iff_of_false nofun fun hb => h hb.1

/-- The octets of a character are read as it, whatever comes after them. -/
theorem exists_leads_of_encode (c : Char) (rest : List UInt8) : ∃ b tail l,
    String.utf8EncodeChar c = b :: tail ∧ Leads b.toNat l ∧ tail.length = l.more ∧
    continued l.more l.bits l.least l.greatest (tail ++ rest) = .ok c.toNat := by
  obtain ⟨b₀, h⟩ | ⟨b₀, b₁, h⟩ | ⟨b₀, b₁, b₂, h⟩ | ⟨b₀, b₁, b₂, b₃, h⟩ := exists_octets c
  · obtain ⟨h0, hc⟩ := encode_one_iff.1 h
    refine ⟨b₀, [], _, h, .one h0, rfl, ?_⟩
    rw [hc, continued_zero]
  · obtain ⟨h0, h1, hc⟩ := encode_two_iff.1 h
    refine ⟨b₀, [b₁], _, h, .two h0, rfl, ?_⟩
    rw [hc]
    exact continued_cons_eq_ok_iff.2 ⟨h1, continued_zero⟩
  · obtain ⟨h0, h1, h2, hc⟩ := encode_three_iff.1 h
    refine ⟨b₀, [b₁, b₂], _, h, .three h0, rfl, ?_⟩
    rw [hc]
    exact continued_cons_eq_ok_iff.2 ⟨h1, continued_cons_eq_ok_iff.2 ⟨h2, continued_zero⟩⟩
  · obtain ⟨h0, h1, h2, h3, hc⟩ := encode_four_iff.1 h
    refine ⟨b₀, [b₁, b₂, b₃], _, h, .four h0, rfl, ?_⟩
    rw [hc]
    exact continued_cons_eq_ok_iff.2 ⟨h1, continued_cons_eq_ok_iff.2 ⟨h2,
      continued_cons_eq_ok_iff.2 ⟨h3, continued_zero⟩⟩⟩

/-- What is finished has as many octets as its first octet tells. -/
theorem exists_of_continued (h : continued more bits least greatest bs = .ok n) :
    ∃ tail, bs = tail ++ bs.drop more ∧ tail.length = more ∧
      continued more bits least greatest tail = .ok n := by
  induction more generalizing bits least greatest bs with
  | zero => exact ⟨[], rfl, rfl, by rw [continued] at h ⊢; exact h⟩
  | succ more ih =>
    cases bs with
    | nil => exact absurd h continued_succ_nil_ne_ok
    | cons b bs =>
      obtain ⟨hb, hbs⟩ := continued_cons_eq_ok_iff.1 h
      obtain ⟨tail, htail, hlength, h⟩ := ih hbs
      refine ⟨b :: tail, ?_, ?_, continued_cons_eq_ok_iff.2 ⟨hb, h⟩⟩
      · rw [List.drop_succ_cons, List.cons_append, ← htail]
      · rw [List.length_cons, hlength]

/-- What is read as a character are the octets of it. -/
theorem exists_char_of_continued {b : UInt8} {l : Lead} (hb : Leads b.toNat l)
    (h : continued l.more l.bits l.least l.greatest bs = .ok n) :
    ∃ c : Char, c.toNat = n ∧ b :: bs = String.utf8EncodeChar c ++ bs.drop l.more := by
  obtain ⟨tail, htail, hlength, h⟩ := exists_of_continued h
  suffices hc : ∃ c : Char, c.toNat = n ∧ String.utf8EncodeChar c = b :: tail by
    obtain ⟨c, hn, hc⟩ := hc
    exact ⟨c, hn, by rw [hc, List.cons_append, ← htail]⟩
  clear htail
  cases hb with
  | one h0 =>
    obtain rfl : tail = [] := List.length_eq_zero_iff.1 hlength
    obtain rfl := Except.ok.inj (continued_zero.symm.trans h)
    obtain ⟨c, hc⟩ := exists_char (n := b.toNat) (by omega)
    exact ⟨c, hc, encode_one_iff.2 ⟨h0, hc⟩⟩
  | two h0 =>
    obtain ⟨b₁, rfl⟩ := List.length_eq_one_iff.1 hlength
    obtain ⟨⟨hleast, hgreatest⟩, h⟩ := continued_cons_eq_ok_iff.1 h
    obtain rfl := Except.ok.inj (continued_zero.symm.trans h)
    obtain ⟨c, hc⟩ := exists_char (n := (b.toNat - 0xC0) * 64 + (b₁.toNat - 0x80)) (by
      simp only at hleast hgreatest
      omega)
    exact ⟨c, hc, encode_two_iff.2 ⟨h0, ⟨hleast, hgreatest⟩, hc⟩⟩
  | three h0 =>
    obtain ⟨b₁, b₂, rfl⟩ := List.length_eq_two.1 hlength
    obtain ⟨⟨hleast, hgreatest⟩, h⟩ := continued_cons_eq_ok_iff.1 h
    obtain ⟨h2, h⟩ := continued_cons_eq_ok_iff.1 h
    obtain rfl := Except.ok.inj (continued_zero.symm.trans h)
    obtain ⟨c, hc⟩ := exists_char
      (n := ((b.toNat - 0xE0) * 64 + (b₁.toNat - 0x80)) * 64 + (b₂.toNat - 0x80)) (by
        -- the bounds of the second octet leave out the surrogates
        have hl := (ite_le_iff (by decide)).1 hleast
        have hg := (le_ite_iff (by decide)).1 hgreatest
        omega)
    exact ⟨c, hc, encode_three_iff.2 ⟨h0, ⟨hleast, hgreatest⟩, h2, hc⟩⟩
  | four h0 =>
    obtain ⟨b₁, b₂, b₃, rfl⟩ := List.length_eq_three.1 hlength
    obtain ⟨⟨hleast, hgreatest⟩, h⟩ := continued_cons_eq_ok_iff.1 h
    obtain ⟨h2, h⟩ := continued_cons_eq_ok_iff.1 h
    obtain ⟨h3, h⟩ := continued_cons_eq_ok_iff.1 h
    obtain rfl := Except.ok.inj (continued_zero.symm.trans h)
    obtain ⟨c, hc⟩ := exists_char (n := (((b.toNat - 0xF0) * 64 + (b₁.toNat - 0x80)) * 64 +
      (b₂.toNat - 0x80)) * 64 + (b₃.toNat - 0x80)) (by
        have hl := (ite_le_iff (by decide)).1 hleast
        have hg := (le_ite_iff (by decide)).1 hgreatest
        omega)
    exact ⟨c, hc, encode_four_iff.2 ⟨h0, ⟨hleast, hgreatest⟩, h2, h3, hc⟩⟩

/-! ### Reading a text -/

/-- The reader takes the octets of a character off the others. -/
theorem exists_decodeFrom_append (pos : Nat) (c : Char) (rest : List UInt8) : ∃ pos',
    decodeFrom pos (String.utf8EncodeChar c ++ rest) = (c :: ·) <$> decodeFrom pos' rest := by
  obtain ⟨b, tail, l, hc, hb, hlength, hcontinued⟩ := exists_leads_of_encode c rest
  have hdrop : (tail ++ rest).drop l.more = rest := by rw [← hlength, List.drop_left]
  refine ⟨pos + l.more + 1, ?_⟩
  rw [hc, List.cons_append, decodeFrom, hb.lead?_eq]
  simp only [hcontinued, Char.ofNat_toNat, hdrop]

theorem decodeFrom_encode (pos : Nat) (cs : List Char) :
    decodeFrom pos (cs.flatMap String.utf8EncodeChar) = .ok cs := by
  induction cs generalizing pos with
  | nil => rw [List.flatMap_nil, decodeFrom]
  | cons c cs ih =>
    obtain ⟨pos', h⟩ := exists_decodeFrom_append pos c (cs.flatMap String.utf8EncodeChar)
    rw [List.flatMap_cons, h, ih]
    rfl

/-- What is read has the octets that were there, and these are fewer for what is left: so the
induction is on their number. -/
theorem eq_encode_of_decodeFrom {pos : Nat} {cs : List Char} (h : decodeFrom pos bs = .ok cs) :
    bs = cs.flatMap String.utf8EncodeChar := by
  induction hn : bs.length using Nat.strongRecOn generalizing pos bs cs with
  | ind k ih =>
    cases bs with
    | nil =>
      rw [decodeFrom] at h
      obtain rfl := Except.ok.inj h
      rfl
    | cons b bs =>
      rw [decodeFrom] at h
      cases hl : lead? b.toNat with
      | none => simp [hl] at h
      | some l =>
        cases hc : continued l.more l.bits l.least l.greatest bs with
        | error e => simp [hl, hc] at h
        | ok n =>
          simp only [hl, hc] at h
          obtain ⟨c, rfl, hbs⟩ := exists_char_of_continued (leads_of_lead? hl) hc
          cases hrest : decodeFrom (pos + l.more + 1) (bs.drop l.more) with
          | error f => rw [hrest] at h; cases h
          | ok rest =>
            rw [hrest] at h
            obtain rfl := Except.ok.inj h
            have hless : (bs.drop l.more).length < k := by
              rw [List.length_drop, ← hn, List.length_cons]
              omega
            rw [List.flatMap_cons, Char.ofNat_toNat, ← ih _ hless hrest rfl]
            exact hbs

/-- **What is read is what is stored**: octets are read as some characters if and only if these
characters are stored as them. -/
theorem decode_eq_ok_iff {cs : List Char} :
    decode bs = .ok cs ↔ bs = cs.flatMap String.utf8EncodeChar := by
  constructor
  · exact eq_encode_of_decodeFrom
  · rintro rfl
    exact decodeFrom_encode 0 cs

/-- Octets are refused if and only if no text is stored as them. -/
theorem exists_decode_eq_error_iff :
    (∃ f, decode bs = .error f) ↔ ¬∃ cs : List Char, bs = cs.flatMap String.utf8EncodeChar := by
  simp only [← decode_eq_ok_iff]
  cases decode bs <;> simp

end Utf8

end SemverRange
