import SemverRange.Proofs.Formula.Boundary
import SemverRange.Proofs.Settings.JsonValue

/-!
# Values that are shown in one line

Where a value of a JSON document is shown there is no line end: in a text it is escaped, and nothing
else has one.

## Main definitions

* `OneLine` — no line ends in the run of characters.

## Main results

* `oneLine_quoted`, `Binary64.oneLine_print` — texts and floating-point numbers.
* `Document.IsJson.oneLine` — **a value is shown in one line.**
-/

namespace SemverRange

/-- No line ends in the run of characters. -/
def OneLine (cs : List Char) : Prop := ∀ c ∈ cs, c ≠ '\n'

instance (cs : List Char) : Decidable (OneLine cs) := List.decidableBAll (· ≠ '\n') cs

section Runs

variable {cs ds : List Char}

theorem oneLine_cons {c : Char} : OneLine (c :: cs) ↔ c ≠ '\n' ∧ OneLine cs :=
  List.forall_mem_cons

theorem oneLine_append : OneLine (cs ++ ds) ↔ OneLine cs ∧ OneLine ds := List.forall_mem_append

theorem oneLine_toList_append {s t : String} :
    OneLine (s ++ t).toList ↔ OneLine s.toList ∧ OneLine t.toList := by
  rw [String.toList_append, oneLine_append]

theorem OneLine.subset (h : OneLine cs) (hsub : ds ⊆ cs) : OneLine ds := fun c hc => h c (hsub hc)

theorem oneLine_replicate {c : Char} (hc : c ≠ '\n') (n : ℕ) : OneLine (List.replicate n c) := by
  intro d hd
  rwa [List.eq_of_mem_replicate hd]

theorem oneLine_intercalate {sep : String} {parts : List String} (hsep : OneLine sep.toList)
    (h : ∀ part ∈ parts, OneLine part.toList) : OneLine (String.intercalate sep parts).toList := by
  rw [String.toList_intercalate]
  exact forall_mem_intercalate hsep (List.forall_mem_map.2 h)

end Runs

/-! ### Numerals -/

theorem digitChar_ne_newline {d : ℕ} (hd : d < 16) : Nat.digitChar d ≠ '\n' := by
  have sixteen : ∀ e < 16, Nat.digitChar e ≠ '\n' := by decide
  exact sixteen d hd

theorem oneLine_toDigits {base : ℕ} (hone : 1 < base) (hbase : base ≤ 16) (n : ℕ) :
    OneLine (Nat.toDigits base n) := by
  induction n using Nat.strongRecOn with
  | ind n ih =>
    by_cases hn : n < base
    · rw [Nat.toDigits_of_lt_base hn]
      exact oneLine_cons.2 ⟨digitChar_ne_newline (hn.trans_le hbase), List.forall_mem_nil _⟩
    · have hle : base ≤ n := Nat.le_of_not_lt hn
      have hmod : n % base < base := Nat.mod_lt n (by omega)
      rw [Nat.toDigits_of_base_le hone hle]
      refine oneLine_append.2 ⟨ih _ (Nat.div_lt_self (by omega) hone), ?_⟩
      exact oneLine_cons.2 ⟨digitChar_ne_newline (hmod.trans_le hbase), List.forall_mem_nil _⟩

theorem oneLine_writeInt {n : ℤ} {ds : List Char} (h : Numeral.writeInt n = .ok ds) :
    OneLine ds := by
  have hdigits (k : ℕ) (es : List Char) (hk : Numeral.write k = .ok es) : OneLine es := by
    simp only [Numeral.write] at hk
    split at hk
    · obtain rfl := Except.ok.inj hk
      exact oneLine_toDigits (by decide) (by decide) k
    · cases hk
  cases n with
  | ofNat k => exact hdigits k ds h
  | negSucc k =>
    rw [Numeral.writeInt] at h
    cases hk : Numeral.write (k + 1) with
    | error f =>
      rw [hk] at h
      cases h
    | ok es =>
      rw [hk] at h
      obtain rfl := Except.ok.inj h
      exact oneLine_cons.2 ⟨by decide, hdigits _ _ hk⟩

/-! ### Texts -/

theorem oneLine_padded (width n : ℕ) : OneLine (padded 16 width n) :=
  oneLine_append.2 ⟨oneLine_replicate (by decide) _, oneLine_toDigits (by decide) (by decide) n⟩

/-- A code point is escaped if it is a line end. -/
theorem oneLine_escapePoint {quote : Char} (hquote : quote ≠ '\n') (n : ℕ) :
    OneLine (escapePoint quote n) := by
  have hbackslash : '\\' ≠ '\n' := by decide
  have hescaped {c : Char} (hc : c ≠ '\n') : OneLine ['\\', c] :=
    oneLine_cons.2 ⟨hbackslash, oneLine_cons.2 ⟨hc, List.forall_mem_nil _⟩⟩
  have hnumber {c : Char} (hc : c ≠ '\n') (width : ℕ) : OneLine ('\\' :: c :: padded 16 width n) :=
    oneLine_cons.2 ⟨hbackslash, oneLine_cons.2 ⟨hc, oneLine_padded width n⟩⟩
  unfold escapePoint
  split_ifs with h1 h2 h3 hline h5 hprintable hbyte hshort
  · exact hescaped hbackslash
  · exact hescaped hquote
  · exact hescaped (by decide)
  · exact hescaped (by decide)
  · exact hescaped (by decide)
  · refine oneLine_cons.2 ⟨fun hc => hline ?_, List.forall_mem_nil _⟩
    -- only the number of a line end is that of the character
    by_cases hvalid : n.isValidChar
    · have hchar : Char.ofNat n = Char.ofNatAux n hvalid := dif_pos hvalid
      exact congrArg Char.toNat (hchar.symm.trans hc)
    · have hchar : Char.ofNat n = '\x00' := dif_neg hvalid
      exact absurd (hchar.symm.trans hc) (by decide)
  · exact hnumber (by decide) 2
  · exact hnumber (by decide) 4
  · exact hnumber (by decide) 8

theorem oneLine_quoted (points : List ℕ) : OneLine (quoted points).toList := by
  have hquote : quoteFor points ≠ '\n' := by
    unfold quoteFor
    split <;> decide
  rw [quoted, String.toList_ofList]
  refine oneLine_cons.2 ⟨hquote, oneLine_append.2 ⟨fun c hc => ?_, oneLine_cons.2 ⟨hquote, ?_⟩⟩⟩
  · obtain ⟨n, -, hn⟩ := List.mem_flatMap.1 hc
    exact oneLine_escapePoint hquote n c hn
  · exact List.forall_mem_nil _

/-! ### Floating-point numbers -/

namespace Binary64

theorem oneLine_printExponent (e : ℤ) : OneLine (printExponent e) := by
  have hdigits : OneLine (Nat.toDigits 10 e.natAbs) :=
    oneLine_toDigits (by decide) (by decide) _
  unfold printExponent
  refine oneLine_cons.2 ⟨?_, ?_⟩
  · split <;> decide
  · split
    · exact oneLine_cons.2 ⟨by decide, hdigits⟩
    · exact hdigits

theorem oneLine_layOut {ds : List Char} (h : OneLine ds) (e : ℤ) : OneLine (layOut ds e) := by
  unfold layOut
  dsimp only
  split_ifs
  · exact oneLine_append.2 ⟨oneLine_append.2 ⟨h, oneLine_replicate (by decide) _⟩, by decide⟩
  · refine oneLine_append.2 ⟨h.subset (List.take_subset _ _), ?_⟩
    exact oneLine_cons.2 ⟨by decide, h.subset (List.drop_subset _ _)⟩
  · refine oneLine_cons.2 ⟨by decide, oneLine_cons.2 ⟨by decide, ?_⟩⟩
    exact oneLine_append.2 ⟨oneLine_replicate (by decide) _, h⟩
  · have hexponent (first : ℤ) : OneLine ('e' :: printExponent first) :=
      oneLine_cons.2 ⟨by decide, oneLine_printExponent first⟩
    split
    · exact oneLine_cons.2 ⟨(oneLine_cons.1 h).1, hexponent _⟩
    · refine oneLine_cons.2 ⟨(oneLine_cons.1 h).1, oneLine_cons.2 ⟨by decide, ?_⟩⟩
      exact oneLine_append.2 ⟨(oneLine_cons.1 h).2, hexponent _⟩
    · exact h

theorem oneLine_print (x : Binary64) : OneLine x.print.toList := by
  cases x with
  | nan => decide
  | infinite negative => cases negative <;> decide
  | finite negative m q =>
    have hbody : OneLine (if m = 0 then ['0', '.', '0'] else
        layOut (trimZeros (Nat.toDigits 10 (shortest m q).1) (shortest m q).2).1
          (trimZeros (Nat.toDigits 10 (shortest m q).1) (shortest m q).2).2) := by
      split
      · decide
      · have hdigits : OneLine (Nat.toDigits 10 (shortest m q).1) :=
          oneLine_toDigits (by decide) (by decide) _
        refine oneLine_layOut (hdigits.subset fun c hc => ?_) _
        rw [trimZeros, List.mem_reverse] at hc
        exact List.mem_reverse.1 (List.dropWhile_subset _ hc)
    rw [print, String.toList_ofList]
    cases negative with
    | false => exact hbody
    | true => exact oneLine_cons.2 ⟨by decide, hbody⟩

end Binary64

/-! ### Values -/

namespace Document

theorem oneLine_displayItems {ds : List Document} {parts : List String}
    (h : displayItems ds = .ok parts) (hds : ∀ d ∈ ds, ∀ s, d.display = .ok s → OneLine s.toList) :
    ∀ part ∈ parts, OneLine part.toList := by
  induction ds generalizing parts with
  | nil =>
    obtain rfl := Except.ok.inj h
    exact List.forall_mem_nil _
  | cons d ds ih =>
    simp only [displayItems, bind_eq_ok_iff] at h
    obtain ⟨part, hpart, parts', hparts', heq⟩ := h
    obtain rfl := Except.ok.inj heq
    obtain ⟨hd, hds⟩ := List.forall_mem_cons.1 hds
    exact List.forall_mem_cons.2 ⟨hd part hpart, ih hparts' hds⟩

theorem oneLine_displayEntries {es : List (Document × Document)} {parts : List String}
    (h : displayEntries es = .ok parts)
    (hkeys : ∀ e ∈ es, ∀ s, e.1.display = .ok s → OneLine s.toList)
    (hvalues : ∀ e ∈ es, ∀ s, e.2.display = .ok s → OneLine s.toList) :
    ∀ part ∈ parts, OneLine part.toList := by
  induction es generalizing parts with
  | nil =>
    obtain rfl := Except.ok.inj h
    exact List.forall_mem_nil _
  | cons e es ih =>
    simp only [displayEntries, bind_eq_ok_iff] at h
    obtain ⟨key, hkey, value, hvalue, parts', hparts', heq⟩ := h
    obtain rfl := Except.ok.inj heq
    obtain ⟨hk, hkeys⟩ := List.forall_mem_cons.1 hkeys
    obtain ⟨hv, hvalues⟩ := List.forall_mem_cons.1 hvalues
    refine List.forall_mem_cons.2 ⟨?_, ih hparts' hkeys hvalues⟩
    rw [oneLine_toList_append, oneLine_toList_append]
    exact ⟨⟨hk key hkey, by decide⟩, hv value hvalue⟩

/-- **A value of a document in JSON is shown in one line.** -/
theorem IsJson.oneLine {d : Document} (h : d.IsJson) {s : String} (hs : d.display = .ok s) :
    OneLine s.toList := by
  induction h generalizing s with
  | null =>
    obtain rfl := Except.ok.inj hs
    decide
  | bool b =>
    obtain rfl := Except.ok.inj hs
    cases b <;> decide
  | @int n _ =>
    rw [display] at hs
    cases hn : Numeral.writeInt n with
    | error f =>
      rw [hn] at hs
      cases hs
    | ok ds =>
      rw [hn] at hs
      obtain rfl := Except.ok.inj hs
      rw [String.toList_ofList]
      exact oneLine_writeInt hn
  | float x =>
    obtain rfl := Except.ok.inj hs
    exact x.oneLine_print
  | nan place =>
    obtain rfl := Except.ok.inj hs
    exact Binary64.nan.oneLine_print
  | text points =>
    obtain rfl := Except.ok.inj hs
    exact oneLine_quoted points
  | @list ds _ ih =>
    rw [display, bind_eq_ok_iff] at hs
    obtain ⟨parts, hparts, heq⟩ := hs
    obtain rfl := Except.ok.inj heq
    have hlines := oneLine_displayItems hparts fun d hd s hs => ih d hd hs
    simp only [oneLine_toList_append]
    exact ⟨⟨by decide, oneLine_intercalate (by decide) hlines⟩, by decide⟩
  | @map es hkeys _ ih =>
    rw [display, bind_eq_ok_iff] at hs
    obtain ⟨parts, hparts, heq⟩ := hs
    obtain rfl := Except.ok.inj heq
    have htexts : ∀ e ∈ es, ∀ s, e.1.display = .ok s → OneLine s.toList := by
      intro e he s hs
      obtain ⟨points, hpoints⟩ := hkeys.texts e he
      rw [hpoints] at hs
      obtain rfl := Except.ok.inj hs
      exact oneLine_quoted points
    have hlines := oneLine_displayEntries hparts htexts fun e he s hs => ih e he hs
    simp only [oneLine_toList_append]
    exact ⟨⟨by decide, oneLine_intercalate (by decide) hlines⟩, by decide⟩

end Document

end SemverRange
