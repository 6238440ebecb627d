import SemverRange.Proofs.Settings.Display

/-!
# Values of JSON documents

A document in JSON has fewer kinds of values than settings documents can have: a mapping has texts
as its keys, and no two of them are the same.  So a key has one value, and it does not matter in
which order the entries stand.

## Main definitions

* `Document.TextKeys` — entries of which the keys are texts, and differ.
* `Document.IsJson` — a value of a document in JSON.

## Main results

* `Document.get?_eq_some_iff` — the value under a name.
* `Document.IsJson.shown` — **a value of a document in JSON can be shown.**
-/

namespace SemverRange

namespace Document

/-- The keys are texts, and no two of them are the same. -/
structure TextKeys (es : List (Document × Document)) : Prop where
  texts : ∀ e ∈ es, ∃ points, e.1 = text points
  nodup : (es.map Prod.fst).Nodup

/-- A value of a document in JSON.  No integer has a numeral that is too long. -/
inductive IsJson : Document → Prop
  | null : IsJson .null
  | bool (b : Bool) : IsJson (.bool b)
  | int {n : ℤ} (h : (Nat.toDigits 10 n.natAbs).length ≤ Numeral.limit) : IsJson (.int n)
  | float (x : Binary64) : IsJson (.float x)
  | nan (place : Option ℕ) : IsJson (.nan place)
  | text (points : List ℕ) : IsJson (.text points)
  | list {ds : List Document} (h : ∀ d ∈ ds, IsJson d) : IsJson (.list ds)
  | map {es : List (Document × Document)} (hkeys : TextKeys es) (h : ∀ e ∈ es, IsJson e.2) :
    IsJson (.map es)

/-- Entries of a mapping of a document in JSON. -/
structure EntriesJson (es : List (Document × Document)) : Prop where
  keys : TextKeys es
  values : ∀ e ∈ es, e.2.IsJson

/-- An integer is one of a document in JSON if its numeral is not longer than one that is read. -/
theorem isJson_int {ds : List Char} (hdigits : ∀ c ∈ ds, c.isDigit = true)
    (hlength : ds.length ≤ Numeral.limit) (negative : Bool) :
    IsJson (.int (if negative then -(Nat.ofDigitChars 10 ds 0 : ℤ)
      else Nat.ofDigitChars 10 ds 0)) := by
  have hlegible := legible_natCast.1 (Grammar.legible_ofDigitChars hdigits hlength)
  apply IsJson.int
  cases negative with
  | false => simpa using hlegible
  | true => simpa using hlegible

/-! ### Keys -/

variable {es fs : List (Document × Document)} {points : List ℕ} {value : Document}

theorem sameKey_text (s t : List ℕ) : sameKey (text s) (text t) = decide (s = t) := rfl

theorem textKeys_nil : TextKeys [] := ⟨List.forall_mem_nil _, List.nodup_nil⟩

theorem textKeys_cons {e : Document × Document} : TextKeys (e :: es) ↔
    (∃ points, e.1 = text points) ∧ e.1 ∉ es.map Prod.fst ∧ TextKeys es := by
  constructor
  · rintro ⟨htexts, hnodup⟩
    obtain ⟨he, hes⟩ := List.forall_mem_cons.1 htexts
    obtain ⟨hmem, hnodup⟩ := List.nodup_cons.1 hnodup
    exact ⟨he, hmem, hes, hnodup⟩
  · rintro ⟨he, hmem, hes, hnodup⟩
    exact ⟨List.forall_mem_cons.2 ⟨he, hes⟩, List.nodup_cons.2 ⟨hmem, hnodup⟩⟩

/-- Neither the order of the entries nor their values matter. -/
theorem TextKeys.of_perm (h : TextKeys es) (hkeys : (es.map Prod.fst).Perm (fs.map Prod.fst)) :
    TextKeys fs := by
  refine ⟨fun f hf => ?_, hkeys.nodup_iff.1 h.nodup⟩
  obtain ⟨e, he, heq⟩ := List.mem_map.1 (hkeys.mem_iff.2 (List.mem_map_of_mem hf))
  exact heq ▸ h.texts e he

/-- A name has the value of the entry with that name. -/
theorem get?_eq_some_iff (h : TextKeys es) :
    get? (text points) es = some value ↔ (text points, value) ∈ es := by
  induction es with
  | nil => simp [get?]
  | cons e es ih =>
    obtain ⟨⟨s, hs⟩, hmem, hes⟩ := textKeys_cons.1 h
    obtain ⟨key, v⟩ := e
    obtain rfl : key = text s := hs
    rw [List.mem_cons, ← ih hes, get?, List.find?_cons, sameKey_text]
    by_cases hpoints : s = points
    · subst hpoints
      -- the name stands in front, so there is no other entry with it
      have hnone : get? (text s) es ≠ some value := fun hsome =>
        hmem (List.mem_map.2 ⟨(text s, value), (ih hes).1 hsome, rfl⟩)
      simp [hnone, eq_comm]
    · have hne : text points ≠ text s := fun heq => hpoints (Document.text.inj heq).symm
      simp [hpoints, hne, get?]

theorem TextKeys.insert (h : TextKeys es) (points : List ℕ) (value : Document) :
    TextKeys (Document.insert (text points) value es) := by
  induction es with
  | nil => exact textKeys_cons.2 ⟨⟨points, rfl⟩, List.not_mem_nil, textKeys_nil⟩
  | cons e es ih =>
    obtain ⟨⟨s, hs⟩, hmem, hes⟩ := textKeys_cons.1 h
    obtain ⟨key, v⟩ := e
    obtain rfl : key = text s := hs
    rw [Document.insert, sameKey_text]
    by_cases hpoints : s = points
    · rw [if_pos (decide_eq_true hpoints)]
      exact textKeys_cons.2 ⟨⟨s, rfl⟩, hmem, hes⟩
    · rw [if_neg (by simpa using hpoints)]
      refine textKeys_cons.2 ⟨⟨s, rfl⟩, fun hin => ?_, ih hes⟩
      -- the name in front is neither the new one nor one behind it
      obtain ⟨e, he, hkey⟩ := List.mem_map.1 hin
      rcases mem_insert he with ⟨-, hnew | ⟨v', hold⟩⟩ | hold
      · exact hpoints (Document.text.inj (hkey.symm.trans hnew))
      · exact hmem (List.mem_map.2 ⟨_, hold, hkey⟩)
      · exact hmem (List.mem_map.2 ⟨e, hold, hkey⟩)

theorem EntriesJson.insert (h : EntriesJson es) (points : List ℕ) (hvalue : value.IsJson) :
    EntriesJson (Document.insert (text points) value es) := by
  refine ⟨h.keys.insert points value, fun e he => ?_⟩
  rcases mem_insert he with ⟨hvalue', -⟩ | he
  · exact hvalue' ▸ hvalue
  · exact h.values e he

theorem EntriesJson.isJson (h : EntriesJson es) : IsJson (.map es) := .map h.keys h.values

theorem IsJson.entries (h : IsJson (.map es)) : EntriesJson es := by
  cases h with
  | map hkeys h => exact ⟨hkeys, h⟩

/-! ### Showing -/

/-- An integer can be shown if its numeral is not too long. -/
theorem shown_int {n : ℤ} (h : (Nat.toDigits 10 n.natAbs).length ≤ Numeral.limit) :
    Shown (.int n) := by
  cases n with
  | ofNat n =>
    have hwrite : Numeral.write n = .ok (Nat.toDigits 10 n) := if_pos h
    exact ⟨_, by rw [display, Numeral.writeInt, hwrite]; rfl⟩
  | negSucc n =>
    have hwrite : Numeral.write (n + 1) = .ok (Nat.toDigits 10 (n + 1)) := if_pos h
    exact ⟨_, by rw [display, Numeral.writeInt, hwrite]; rfl⟩

/-- **A value of a document in JSON can be shown.** -/
theorem IsJson.shown {d : Document} (h : d.IsJson) : d.Shown := by
  induction h with
  | null => exact ⟨_, rfl⟩
  | bool b => exact ⟨_, rfl⟩
  | int h => exact shown_int h
  | float x => exact ⟨_, rfl⟩
  | nan place => exact ⟨_, rfl⟩
  | text points => exact ⟨_, rfl⟩
  | list _ ih => exact shown_list_iff.2 ih
  | map hkeys _ ih =>
    refine shown_map_iff.2 fun e he => ⟨?_, ih e he⟩
    obtain ⟨points, hpoints⟩ := hkeys.texts e he
    exact ⟨_, by rw [hpoints]; rfl⟩

end Document

end SemverRange
