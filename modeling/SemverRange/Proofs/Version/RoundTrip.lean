import SemverRange.Proofs.Formula.WellFormed

/-!
# Versions read back

A text is read as a version if it is a target that denotes one, with nothing but white space
around it.  The written form of a well-formed version is such a text, whatever its identifiers
look like: they can contain, begin and end with dashes, be an `x` or a `v`, and in the build
metadata have zeros in front.  A version that is not well formed does not come back: it has no
written form, or another version is read from it, or none.

## Main results

* `Version.parse_eq_ok`, `Version.exists_derivation_of_parse` — when a text is read as a version.
* `Version.exists_print_parse_iff` — **a version reads back from its written form if and only if
  it is well formed**.
-/

namespace SemverRange

/-- The tokens of a version are those of a target that is one, and no others. -/
theorem Read.version_eq_ok_iff {source : List Char} {stop : ℕ} {ts : List Token} {v : Version} :
    Read.version source stop ts = .ok v ↔ Read.target ts = .ok (.version v, []) := by
  rw [Read.version]
  constructor
  · intro h
    obtain ⟨⟨t, rest⟩, ht, h⟩ := bind_eq_ok h
    cases t with
    | version w =>
      obtain ⟨⟨⟩, hdone, h⟩ := bind_eq_ok h
      cases h
      cases rest with
      | nil => exact ht
      | cons t rest => cases hdone
    | _ => cases h
  · intro h
    rw [h]
    rfl

/-- A target between white space is cut into its tokens. -/
theorem Grammar.Target.scans_between (b a : Grammar.Blanks) (t : Grammar.Target) :
    Scans none (b.1 ++ (t.text ++ a.1)) t.lexemes := by
  have ht := t.scans (ends_of_blanks a) (fun l _ => scans_blanks a.2 (some l)) none
  rw [List.append_nil] at ht
  exact ht.drop_blanks rfl b.2 (t.isSolid_head a.1)

namespace Version

variable {v : Version} {text : String}

/-- A target between white space is read as the version that it denotes. -/
theorem parse_eq_ok {b a : Grammar.Blanks} {d : Grammar.Target}
    (htext : text.toList = b.1 ++ (d.text ++ a.1)) (hshort : Short d.numerals)
    (hden : d.denote = .version v) : Version.parse text = .ok v := by
  obtain ⟨ts, hts, hlexemes⟩ := (d.scans_between b a).exists_scanFrom 0
  have htokens : tokenize text = .ok ⟨ts, text.length⟩ := by rw [tokenize, htext, hts]
  rw [← List.append_nil d.lexemes] at hlexemes
  obtain ⟨rest, hread, hrest⟩ := d.reads hshort (by rintro l ⟨⟩) ts hlexemes
  obtain rfl := List.map_eq_nil_iff.1 hrest
  rw [hden] at hread
  rw [Version.parse, htokens]
  simp only [Except.mapError, bind, Except.bind, Read.version_eq_ok_iff.2 hread]

/-- What is read as a version is a target between white space. -/
theorem exists_derivation_of_parse (h : Version.parse text = .ok v) :
    ∃ (b a : Grammar.Blanks) (d : Grammar.Target), text.toList = b.1 ++ (d.text ++ a.1) ∧
      Short d.numerals ∧ d.denote = .version v := by
  obtain ⟨tokens, htokens, hread⟩ := bind_eq_ok h
  unfold tokenize at htokens
  cases hts : Token.scanFrom none 0 text.toList with
  | error s => rw [hts] at htokens; cases htokens
  | ok ts =>
    rw [hts] at htokens
    cases htokens
    cases hversion : Read.version text.toList text.length ts with
    | error e => rw [hversion] at hread; cases hread
    | ok w =>
      rw [hversion] at hread
      cases hread
      obtain ⟨d, ⟨b, a, hb, -, htext, l, -, ha⟩, hden, hshort⟩ :=
        Grammar.exists_target_of_read (scans_of_scanFrom hts) (Read.version_eq_ok_iff.1 hversion)
      exact ⟨⟨b, hb⟩, ⟨a, ha.blanks_of_nil⟩, d, htext, hshort, hden⟩

/-- What is read is well formed, and so it can be written. -/
theorem wellFormed_of_parse (h : Version.parse text = .ok v) : v.WellFormed := by
  obtain ⟨-, -, d, -, hshort, hden⟩ := exists_derivation_of_parse h
  have hwf := d.wellFormed_denote hshort
  rw [hden] at hwf
  cases hwf with
  | version hv => exact hv

/-- **A version reads back from its written form, field for field, if and only if it is well
formed**: no number is too long, no identifier is empty or has other characters than letters,
digits and dashes, and the prerelease identifiers that are texts do not consist of digits. -/
theorem exists_print_parse_iff :
    (∃ text, v.print = .ok text ∧ Version.parse text = .ok v) ↔ v.WellFormed := by
  constructor
  · rintro ⟨text, -, hparse⟩
    exact wellFormed_of_parse hparse
  · intro hv
    obtain ⟨d, hrender, hden, hshort⟩ := exists_derivation_of_render hv
    have hprint : v.print = .ok (String.ofList d.text) := by
      rw [print, hrender]
      rfl
    refine ⟨_, hprint, parse_eq_ok (b := ⟨[], by simp⟩) (a := ⟨[], by simp⟩) ?_ hshort hden⟩
    rw [String.toList_ofList, List.nil_append, List.append_nil]

/-- Dashes, an `x`, a `v` and zeros in front are no obstacle. -/
example : Version.parse "0.10.0--.x.v0.-7-+007.-.x" =
    .ok ⟨0, 10, 0, [.alpha "-", .alpha "x", .alpha "v0", .alpha "-7-"], ["007", "-", "x"]⟩ := by
  decide +kernel

end Version

end SemverRange
