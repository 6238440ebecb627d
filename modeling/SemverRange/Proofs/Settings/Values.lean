import SemverRange.Proofs.Settings.Constraints
import SemverRange.Proofs.Settings.Loading

/-!
# The values of settings

Settings that are loaded from a document in JSON have the values that stand there, and the usual
ones where none stand.  Since the document was found valid, the first is a truth value, and the
second is a number with integral value that is at least one.  It need not be an integer: a
floating-point number with integral value is valid, and it is handed on as it is.  In either case
there is a cache of that size.

## Main definitions

* `Document.Gives d p usual v` — the document has the value at the place, or none and it is the
  usual one.
* `Settings.Follow s d` — the settings have the values of the document.

## Main results

* `Document.IsJson.violations_eq_nil_iff` — nothing is wrong with a document if it is valid.
* `Settings.ofDocument_eq_values` — a valid document is read at its places.
* `Settings.load_json_values` — **the values of settings that are loaded.**
-/

namespace SemverRange

namespace Document

variable {d v : Document}

/-- The document has the value at the place and no other, or it has none there and the value is the
usual one. -/
def Gives (d : Document) (p : SettingPath) (usual v : Document) : Prop :=
  (∀ v', d.HasAt p.names v' ↔ v' = v) ∨ (∀ v', ¬d.HasAt p.names v') ∧ v = usual

/-- What is found at the place, or else the usual value, is what the document gives. -/
theorem IsJson.gives (hd : d.IsJson) (p : SettingPath) (usual : Document) :
    d.Gives p usual ((d.valueAt? p.names).getD usual) := by
  cases hfound : d.valueAt? p.names with
  | none =>
    refine .inr ⟨fun v' hv' => ?_, rfl⟩
    rw [hd.valueAt?_eq_some_iff.2 hv'] at hfound
    cases hfound
  | some v =>
    refine .inl fun v' => ?_
    rw [← hd.valueAt?_eq_some_iff, hfound, Option.some.injEq, eq_comm]
    rfl

/-- What holds of the usual value and of all values at the place holds of what is given. -/
theorem Gives.elim {p : SettingPath} {usual : Document} {P : Document → Prop}
    (h : d.Gives p usual v) (husual : P usual) (hat : ∀ v', d.HasAt p.names v' → P v') : P v := by
  rcases h with hv | ⟨-, rfl⟩
  · exact hat v ((hv v).2 rfl)
  · exact husual

/-- **Nothing is wrong with a document if it is valid.** -/
theorem IsJson.violations_eq_nil_iff (hd : d.IsJson) : violations d = [] ↔ d.IsSettings := by
  rw [violations_eq, List.filterMap_eq_nil_iff, isSettings_iff]
  refine forall₂_congr fun pc _ => ?_
  rw [← hd.violationOf_isSome_iff, Bool.not_eq_true, Option.isSome_eq_false_iff,
    Option.isNone_iff_eq_none]

/-- No document at all counts as the empty mapping. -/
def orEmpty : Document → Document
  | null => map []
  | d => d

theorem IsJson.orEmpty (hd : d.IsJson) : d.orEmpty.IsJson := by
  cases d with
  | null => exact .map textKeys_nil (List.forall_mem_nil _)
  | _ => exact hd

/-- The empty mapping has as little in it as no document at all. -/
theorem hasAt_orEmpty_iff {name : String} {names : List String} :
    d.orEmpty.HasAt (name :: names) v ↔ d.HasAt (name :: names) v := by
  cases d with
  | null =>
    constructor
    · intro h
      cases h with
      | entry hmem => cases hmem
    · intro h
      cases h
  | _ => exact Iff.rfl

/-! ### The kinds of the values -/

/-- In a valid document the value at `cache/enabled` is a truth value. -/
theorem IsSettings.exists_bool (h : d.IsSettings) (hv : d.HasAt SettingPath.enabled.names v) :
    ∃ b, v = .bool b := by
  obtain ⟨-, -, hcache⟩ := isSettings_iff_isCache.1 h
  obtain ⟨c, hc, hv⟩ := hasAt_pair_iff.1 hv
  exact not_not.1 ((isCache_iff.1 (hcache c hc)).2.2.1 v hv)

/-- In a valid document the value at `cache/size` is a size. -/
theorem IsSettings.isSize (h : d.IsSettings) (hv : d.HasAt SettingPath.size.names v) :
    v.IsSize := by
  obtain ⟨-, -, hcache⟩ := isSettings_iff_isCache.1 h
  obtain ⟨c, hc, hv⟩ := hasAt_pair_iff.1 hv
  exact (isCache_iff.1 (hcache c hc)).2.2.2 v hv

/-- A size is an integer, or a floating-point number with integral value. -/
theorem IsSize.cases (h : v.IsSize) : ∃ n : ℤ, 1 ≤ n ∧
    (v = .int n ∨ ∃ x : Binary64, v = .float x ∧ x.toInt? = some n) := by
  obtain ⟨n, hn, hle⟩ := h
  refine ⟨n, hle, ?_⟩
  cases v with
  | int m =>
    rw [toRat?, Option.some.injEq, Int.cast_inj] at hn
    exact .inl (by rw [hn])
  | float x => exact .inr ⟨x, rfl, Binary64.toInt?_eq_some_iff.2 hn⟩
  | _ => cases hn

theorem isSize_defaultSize : (int Cache.defaultSize).IsSize :=
  ⟨Cache.defaultSize, rfl, by decide⟩

/-- There is a cache of the size. -/
theorem IsSize.exists_toSize? (h : v.IsSize) :
    ∃ size : Cache.Size, v.toSize? = .ok size ∧ size.isTooSmall = false := by
  have hlarge : v.isTooSmall = false := by
    rw [← Bool.not_eq_true, isTooSmall_iff]
    exact (isSize_iff.1 h).2
  obtain ⟨n, hn, rfl | ⟨x, rfl, -⟩⟩ := h.cases
  · exact ⟨.whole n, rfl, hlarge⟩
  · exact ⟨.real x, rfl, hlarge⟩

end Document

theorem Document.entries?_eq_ok_iff {d : Document} {es : List (Document × Document)} :
    d.entries? = .ok es ↔ d = .map es := by
  cases d <;> simp [entries?]

namespace Settings

/-- The settings have the values of the document, and the usual ones where it has none. -/
structure Follow (s : Settings) (d : Document) : Prop where
  enabled : d.Gives .enabled usual.cacheEnabled s.cacheEnabled
  size : d.Gives .size usual.cacheSize s.cacheSize
  /-- Whether formulas are cached is told by a truth value. -/
  isBool : ∃ b, s.cacheEnabled = .bool b
  /-- How many are cached is told by a number, of whatever kind. -/
  isSize : s.cacheSize.IsSize

/-! ### A valid document is read at its places -/

/-- Without a value of `cache` there are the usual settings. -/
theorem ofDocument_map_of_absent {es : List (Document × Document)}
    (h : Document.get? (.ofString "cache") es = none) : ofDocument (.map es) = .ok usual := by
  have hroot : (Document.map es).entries? = .ok es := rfl
  unfold ofDocument
  rw [hroot]
  simp only [Except.mapError, bind, Except.bind, h]
  rfl

/-- The settings are those of the mapping under `cache`, also if it is empty. -/
theorem ofDocument_map_of_present {es cs : List (Document × Document)}
    (h : Document.get? (.ofString "cache") es = some (.map cs)) :
    ofDocument (.map es) = .ok ⟨(Document.get? (.ofString "enabled") cs).getD usual.cacheEnabled,
      (Document.get? (.ofString "size") cs).getD usual.cacheSize⟩ := by
  have hroot : (Document.map es).entries? = .ok es := rfl
  have hcache : (Document.map cs).entries? = .ok cs := rfl
  unfold ofDocument
  rw [hroot]
  simp only [Except.mapError, bind, Except.bind, h, Option.getD_some, hcache]
  split
  · next hnothing =>
    obtain rfl : cs = [] := List.isEmpty_iff.1 hnothing
    rfl
  · rfl

/-- **A valid document is read at its places.** -/
theorem ofDocument_eq_values {d : Document} (h : violations d = []) :
    ofDocument d = .ok ⟨(d.valueAt? SettingPath.enabled.names).getD usual.cacheEnabled,
      (d.valueAt? SettingPath.size.names).getD usual.cacheSize⟩ := by
  unfold violations at h
  split at h
  · next es =>
    obtain ⟨-, hcache⟩ := List.append_eq_nil_iff.1 h
    cases hget : Document.get? (.ofString "cache") es with
    | none =>
      rw [ofDocument_map_of_absent hget]
      simp only [SettingPath.names, Document.valueAt?, hget]
      rfl
    | some c =>
      rw [entryViolations, hget] at hcache
      obtain ⟨cs, hcs⟩ := exists_entries_of_cacheViolations hcache
      obtain rfl : c = .map cs := Document.entries?_eq_ok_iff.1 hcs
      rw [ofDocument_map_of_present hget]
      simp only [SettingPath.names, Document.valueAt?, hget, Option.bind_some, Option.bind_fun_some]
  · cases h

/-- **Settings of a valid document have its values**, and these are of the right kinds. -/
theorem follow_of_valid {s : Settings} {d : Document} (hd : d.IsJson) (hvalid : violations d = [])
    (h : ofDocument d = .ok s) : s.Follow d := by
  rw [ofDocument_eq_values hvalid] at h
  cases h
  have hsettings := hd.violations_eq_nil_iff.1 hvalid
  have henabled := hd.gives .enabled usual.cacheEnabled
  have hsize := hd.gives .size usual.cacheSize
  refine ⟨henabled, hsize, ?_, ?_⟩
  · exact henabled.elim ⟨true, rfl⟩ fun v hv => hsettings.exists_bool hv
  · exact hsize.elim Document.isSize_defaultSize fun v hv => hsettings.isSize hv

/-- Taking no document at all for the empty mapping gives it no values. -/
theorem Follow.of_orEmpty {s : Settings} {d : Document} (h : s.Follow d.orEmpty) : s.Follow d := by
  obtain ⟨henabled, hsize, hbool, hisSize⟩ := h
  simp only [Document.Gives, SettingPath.names, Document.hasAt_orEmpty_iff] at henabled hsize
  exact ⟨henabled, hsize, hbool, hisSize⟩

/-- There is a cache with the settings. -/
theorem Follow.exists_newCache? {s : Settings} {d : Document} {b : Bool} (h : s.Follow d)
    (hb : s.cacheEnabled = .bool b) : ∃ c, s.newCache? = .ok c ∧ c.enabled = b := by
  obtain ⟨size, hsize, hlarge⟩ := h.isSize.exists_toSize?
  have hnew : Cache.new? size b = .ok ⟨[], size, b, 0, 0⟩ := by
    rw [Cache.new?, hlarge, if_neg Bool.false_ne_true]
  refine ⟨⟨[], size, b, 0, 0⟩, ?_, rfl⟩
  rw [newCache?, hsize, hb]
  simp only [Except.mapError, bind, Except.bind, Document.isNothing, Bool.not_not]
  exact hnew

/-! ### Loading -/

variable {w : Surroundings} {source : Option String} {name : String} {s : Settings}

/-- A document that makes settings is valid. -/
theorem valid_of_validated {d : Document} (h : (do validate d; ofDocument d) = .ok s) :
    violations d = [] ∧ ofDocument d = .ok s := by
  rcases validate_cases d with ⟨hnone, hvalid⟩ | ⟨lines, hlines⟩ | ⟨v, -, f, -, hf⟩
  · rw [hvalid] at h
    exact ⟨hnone, h⟩
  · rw [hlines] at h
    cases h
  · rw [hf] at h
    cases h

/-- Settings of a text in JSON have the values of the document that the text stands for. -/
theorem exists_follow_of_ofText {text : List Char} (hjson : isYaml name = false)
    (h : ofText name text = .ok s) : ∃ d, Json.parse text = .ok d ∧ s.Follow d := by
  unfold ofText decode at h
  rw [hjson, if_neg Bool.false_ne_true] at h
  cases hd : Json.parse text with
  | error f =>
    rw [hd] at h
    cases h
  | ok d =>
    have hvalue := Json.isJson_of_parse hd
    refine ⟨d, rfl, ?_⟩
    rw [hd] at h
    obtain ⟨hvalid, hs⟩ := valid_of_validated (d := d.orEmpty) h
    exact (follow_of_valid hvalue.orEmpty hvalid hs).of_orEmpty

/-- The text of a file that is stored as it is to be read. -/
theorem textOf_withFile {cs : List Char} (h : unifyLineEnds cs = cs) :
    textOf (withFile (cs.flatMap String.utf8EncodeChar)) "settings.json" = .ok cs := by
  have hfile : isUrl "settings.json" = false := by decide +kernel
  have hdecode : Utf8.decode (cs.flatMap String.utf8EncodeChar) = .ok cs :=
    Utf8.decode_eq_ok_iff.2 rfl
  rw [textOf, hfile, if_neg Bool.false_ne_true, fileText, find_withFile]
  simp only [hdecode]
  exact congrArg Except.ok h

/-- The settings as a truth value and a size, if they are of these kinds. -/
def values? (s : Settings) : Option (Bool × Cache.Size) :=
  match s.cacheEnabled, s.cacheSize with
  | .bool b, .int n => some (b, .whole n)
  | .bool b, .float x => some (b, .real x)
  | _, _ => none

theorem eq_of_values?_whole {b : Bool} {n : ℤ} (h : s.values? = some (b, .whole n)) :
    s = ⟨.bool b, .int n⟩ := by
  obtain ⟨enabled, size⟩ := s
  unfold values? at h
  split at h <;> simp_all

theorem eq_of_values?_real {b : Bool} {x : Binary64} (h : s.values? = some (b, .real x)) :
    s = ⟨.bool b, .float x⟩ := by
  obtain ⟨enabled, size⟩ := s
  unfold values? at h
  split at h <;> simp_all

/-- The settings of a file are those of its text. -/
theorem exists_load_withFile {cs : List Char} {v : Bool × Cache.Size}
    (hends : unifyLineEnds cs = cs)
    (h : (ofText "settings.json" cs).toOption.bind values? = some v) :
    ∃ s, (load (some "settings.json") (withFile (cs.flatMap String.utf8EncodeChar))).result =
        .ok s ∧ s.values? = some v := by
  rw [result_load_of_some rfl, textOf_withFile hends]
  cases hread : ofText "settings.json" cs with
  | error f =>
    rw [hread] at h
    cases h
  | ok s =>
    rw [hread] at h
    exact ⟨s, hread, h⟩

end Settings

end SemverRange
