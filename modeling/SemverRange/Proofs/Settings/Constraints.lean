import Mathlib.Data.Set.List
import SemverRange.Proofs.Numeric.Binary64
import SemverRange.Proofs.Settings.JsonValue

/-!
# What is asked of settings

The rules for settings are a table of constraints, each with the place that it is about.  What a
constraint says of a value is said here without a test, numbers being rational numbers and mappings
sets of entries; and what the tests find wrong with a document is one violation for each constraint
that is broken, in the order of the table.

## Main definitions

* `Constraint`, `constraints` — what is asked of a value, and the table.
* `Document.HasAt` — a document has a value at a place.
* `Constraint.Broken`, `Document.Breaks` — a constraint does not hold of a value, and of a document.
* `Document.IsSettings` — the document is valid.

## Main results

* `violations_eq` — **what is wrong is told by the table.**
* `Document.IsJson.violationOf_isSome_iff` — a violation is found where a constraint is broken.
* `Document.isSettings_iff` — a document is valid if it breaks no constraint.
-/

namespace SemverRange

/-- What is asked of a value. -/
inductive Constraint
  /-- It is of this kind. -/
  | kind (k : SettingKind)
  /-- If it is a mapping, the keys of its entries are among these. -/
  | names (ns : List String)
  /-- If it is a number, it is not less than `leastSize`. -/
  | minimum
  deriving DecidableEq, Repr

/-- The constraints with their places. -/
def constraints : List (SettingPath × Constraint) :=
  [(.root, .kind .object), (.root, .names rootNames),
    (.cache, .kind .object), (.cache, .names cacheNames),
    (.enabled, .kind .boolean),
    (.size, .kind .integer), (.size, .minimum)]

/-- The keys that lead to the place. -/
def SettingPath.names : SettingPath → List String
  | root => []
  | cache => ["cache"]
  | enabled => ["cache", "enabled"]
  | size => ["cache", "size"]

namespace Document

/-- The keys lead to the value. -/
inductive HasAt : Document → List String → Document → Prop
  | here (d : Document) : HasAt d [] d
  | entry {es : List (Document × Document)} {name : String} {names : List String} {d v : Document}
      (hmem : (ofString name, d) ∈ es) (h : HasAt d names v) : HasAt (.map es) (name :: names) v

/-- The rational number that the value is equal to; truth values are no numbers. -/
def toRat? : Document → Option ℚ
  | int n => some n
  | float x => x.toRat?
  | _ => none

end Document

/-- The constraint does not hold of the value. -/
def Constraint.Broken (v : Document) : Constraint → Prop
  | kind .object => ¬∃ es, v = .map es
  | kind .boolean => ¬∃ b, v = .bool b
  | kind .integer => ¬∃ n : ℤ, v.toRat? = some (n : ℚ)
  | names ns => ∃ es, v = .map es ∧ ∃ e ∈ es, ∀ n ∈ ns, e.1 ≠ .ofString n
  | minimum => (∃ r, v.toRat? = some r ∧ r < leastSize) ∨ v = .float (.infinite true)

/-- The document has a value for which the constraint does not hold. -/
def Document.Breaks (d : Document) (pc : SettingPath × Constraint) : Prop :=
  ∃ v, d.HasAt pc.1.names v ∧ pc.2.Broken v

/-! ### Valid documents -/

namespace Document

/-- A number with integral value that is at least `leastSize`. -/
def IsSize (v : Document) : Prop := ∃ n : ℤ, v.toRat? = some (n : ℚ) ∧ leastSize ≤ n

/-- A mapping with no other entries than `enabled`, a truth value, and `size`, a size. -/
inductive IsCache : Document → Prop
  | map {es : List (Document × Document)}
      (hkeys : ∀ e ∈ es, e.1 = ofString "enabled" ∨ e.1 = ofString "size")
      (henabled : ∀ v, (ofString "enabled", v) ∈ es → ∃ b, v = .bool b)
      (hsize : ∀ v, (ofString "size", v) ∈ es → v.IsSize) : IsCache (.map es)

/-- A mapping with no other entry than `cache`. -/
inductive IsSettings : Document → Prop
  | map {es : List (Document × Document)} (hkeys : ∀ e ∈ es, e.1 = ofString "cache")
      (hcache : ∀ v, (ofString "cache", v) ∈ es → v.IsCache) : IsSettings (.map es)

theorem hasAt_nil_iff {d v : Document} : d.HasAt [] v ↔ v = d := by
  constructor
  · intro h
    cases h
    rfl
  · rintro rfl
    exact .here v

theorem hasAt_singleton_iff {es : List (Document × Document)} {name : String} {v : Document} :
    HasAt (.map es) [name] v ↔ (ofString name, v) ∈ es := by
  constructor
  · rintro (_ | ⟨hmem, h⟩)
    rwa [hasAt_nil_iff.1 h]
  · intro hmem
    exact .entry hmem (.here v)

theorem hasAt_pair_iff {d v : Document} {name name' : String} :
    d.HasAt [name, name'] v ↔ ∃ c, d.HasAt [name] c ∧ c.HasAt [name'] v := by
  constructor
  · rintro (_ | ⟨hmem, h⟩)
    exact ⟨_, .entry hmem (.here _), h⟩
  · rintro ⟨c, _ | ⟨hmem, h⟩, hv⟩
    obtain rfl := hasAt_nil_iff.1 h
    exact .entry hmem hv

/-- A size is a number with integral value that is not too small. -/
theorem isSize_iff {v : Document} : v.IsSize ↔
    ¬(Constraint.kind .integer).Broken v ∧ ¬Constraint.minimum.Broken v := by
  constructor
  · rintro ⟨n, hn, hle⟩
    refine ⟨fun h => h ⟨n, hn⟩, ?_⟩
    rintro (⟨r, hr, hlt⟩ | rfl)
    · obtain rfl : (n : ℚ) = r := Option.some.inj (hn.symm.trans hr)
      have hlt' : n < leastSize := by exact_mod_cast hlt
      omega
    · cases hn
  · rintro ⟨hinteger, hminimum⟩
    obtain ⟨n, hn⟩ := not_not.1 hinteger
    refine ⟨n, hn, le_of_not_gt fun hlt => hminimum (.inl ⟨n, hn, ?_⟩)⟩
    exact_mod_cast hlt

/-- A mapping has no other keys than those named. -/
theorem not_broken_names_iff {es : List (Document × Document)} {ns : List String} :
    ¬(Constraint.names ns).Broken (.map es) ↔ ∀ e ∈ es, ∃ n ∈ ns, e.1 = ofString n := by
  constructor
  · intro h e he
    by_contra hne
    exact h ⟨es, rfl, e, he, fun n hn heq => hne ⟨n, hn, heq⟩⟩
  · rintro h ⟨es, heq, e, he, hne⟩
    obtain rfl := Document.map.inj heq
    obtain ⟨n, hn, hkey⟩ := h e he
    exact hne n hn hkey

theorem isCache_iff {c : Document} : c.IsCache ↔
    ¬(Constraint.kind .object).Broken c ∧ ¬(Constraint.names cacheNames).Broken c ∧
    (∀ v, c.HasAt ["enabled"] v → ¬(Constraint.kind .boolean).Broken v) ∧
    ∀ v, c.HasAt ["size"] v → v.IsSize := by
  constructor
  · rintro ⟨hkeys, henabled, hsize⟩
    refine ⟨fun h => h ⟨_, rfl⟩, ?_, fun v hv => ?_, fun v hv => ?_⟩
    · rw [not_broken_names_iff]
      simpa [cacheNames] using hkeys
    · exact fun h => h (henabled v (hasAt_singleton_iff.1 hv))
    · exact hsize v (hasAt_singleton_iff.1 hv)
  · rintro ⟨hkind, hnames, henabled, hsize⟩
    obtain ⟨es, rfl⟩ := not_not.1 hkind
    rw [not_broken_names_iff] at hnames
    refine .map (by simpa [cacheNames] using hnames) (fun v hv => ?_) fun v hv => ?_
    · exact not_not.1 (henabled v (hasAt_singleton_iff.2 hv))
    · exact hsize v (hasAt_singleton_iff.2 hv)

theorem isSettings_iff_isCache {d : Document} : d.IsSettings ↔
    ¬(Constraint.kind .object).Broken d ∧ ¬(Constraint.names rootNames).Broken d ∧
    ∀ c, d.HasAt ["cache"] c → c.IsCache := by
  constructor
  · rintro ⟨hkeys, hcache⟩
    refine ⟨fun h => h ⟨_, rfl⟩, ?_, fun c hc => hcache c (hasAt_singleton_iff.1 hc)⟩
    rw [not_broken_names_iff]
    simpa [rootNames] using hkeys
  · rintro ⟨hkind, hnames, hcache⟩
    obtain ⟨es, rfl⟩ := not_not.1 hkind
    rw [not_broken_names_iff] at hnames
    exact .map (by simpa [rootNames] using hnames) fun c hc => hcache c (hasAt_singleton_iff.2 hc)

/-- **A document is valid if it breaks no constraint.** -/
theorem isSettings_iff {d : Document} : d.IsSettings ↔ ∀ pc ∈ constraints, ¬d.Breaks pc := by
  rw [isSettings_iff_isCache]
  simp only [constraints, List.forall_mem_cons, Breaks, SettingPath.names, hasAt_nil_iff,
    exists_eq_left]
  constructor
  · rintro ⟨hkind, hnames, hcache⟩
    refine ⟨hkind, hnames, ?_, ?_, ?_, ?_, ?_, List.forall_mem_nil _⟩
    · rintro ⟨c, hc, hbroken⟩
      exact (isCache_iff.1 (hcache c hc)).1 hbroken
    · rintro ⟨c, hc, hbroken⟩
      exact (isCache_iff.1 (hcache c hc)).2.1 hbroken
    · rintro ⟨v, hv, hbroken⟩
      obtain ⟨c, hc, hv⟩ := hasAt_pair_iff.1 hv
      exact (isCache_iff.1 (hcache c hc)).2.2.1 v hv hbroken
    · rintro ⟨v, hv, hbroken⟩
      obtain ⟨c, hc, hv⟩ := hasAt_pair_iff.1 hv
      exact (isSize_iff.1 ((isCache_iff.1 (hcache c hc)).2.2.2 v hv)).1 hbroken
    · rintro ⟨v, hv, hbroken⟩
      obtain ⟨c, hc, hv⟩ := hasAt_pair_iff.1 hv
      exact (isSize_iff.1 ((isCache_iff.1 (hcache c hc)).2.2.2 v hv)).2 hbroken
  · rintro ⟨hkind, hnames, hcacheKind, hcacheNames, henabled, hinteger, hminimum, -⟩
    refine ⟨hkind, hnames, fun c hc => isCache_iff.2 ⟨?_, ?_, fun v hv => ?_, fun v hv => ?_⟩⟩
    · exact fun h => hcacheKind ⟨c, hc, h⟩
    · exact fun h => hcacheNames ⟨c, hc, h⟩
    · exact fun h => henabled ⟨v, hasAt_pair_iff.2 ⟨c, hc, hv⟩, h⟩
    · have hat := hasAt_pair_iff.2 ⟨c, hc, hv⟩
      exact isSize_iff.2 ⟨fun h => hinteger ⟨v, hat, h⟩, fun h => hminimum ⟨v, hat, h⟩⟩

end Document

/-! ### What the tests find -/

/-- The violation of the constraint by the value, if the tests find one. -/
def Constraint.violation? (p : SettingPath) : Constraint → Document → Option Violation
  | kind .object, .map _ => none
  | kind .object, v => some (.wrongKind p .object v)
  | kind .boolean, v => if v.isBool then none else some (.wrongKind p .boolean v)
  | kind .integer, v => if v.isIntegral then none else some (.wrongKind p .integer v)
  | names ns, .map es =>
    if extraKeys ns es = [] then none else some (.extra p (extraKeys ns es))
  | names _, _ => none
  | minimum, v => if v.isTooSmall then some (.tooSmall p v) else none

namespace Document

/-- The value that is found under the keys. -/
def valueAt? : Document → List String → Option Document
  | d, [] => some d
  | .map es, name :: names => (get? (ofString name) es).bind fun v => valueAt? v names
  | _, _ :: _ => none

/-- The violation of the constraint at its place, if the tests find one. -/
def violationOf (d : Document) (pc : SettingPath × Constraint) : Option Violation :=
  (d.valueAt? pc.1.names).bind (pc.2.violation? pc.1)

end Document

theorem extraViolations_eq (p : SettingPath) (ns : List String) (es : List (Document × Document)) :
    extraViolations p ns es = ((Constraint.names ns).violation? p (.map es)).toList := by
  rw [extraViolations, Constraint.violation?]
  cases extraKeys ns es <;> rfl

theorem enabledViolations_eq (v : Document) :
    enabledViolations v = ((Constraint.kind .boolean).violation? .enabled v).toList := by
  rw [enabledViolations, Constraint.violation?]
  split <;> rfl

theorem sizeViolations_eq (v : Document) :
    sizeViolations v = ((Constraint.kind .integer).violation? .size v).toList ++
      (Constraint.minimum.violation? .size v).toList := by
  rw [sizeViolations, Constraint.violation?, Constraint.violation?]
  congr 1 <;> split <;> rfl

/-- What is wrong with the value of `cache`. -/
theorem cacheViolations_eq (c : Document) : cacheViolations c =
    ((Constraint.kind .object).violation? .cache c).toList ++
      (((Constraint.names cacheNames).violation? .cache c).toList ++
        (((c.valueAt? ["enabled"]).bind ((Constraint.kind .boolean).violation? .enabled)).toList ++
          (((c.valueAt? ["size"]).bind ((Constraint.kind .integer).violation? .size)).toList ++
            ((c.valueAt? ["size"]).bind (Constraint.minimum.violation? .size)).toList))) := by
  cases c with
  | map cs =>
    have hentry (name : String) : (Document.map cs).valueAt? [name] =
        Document.get? (.ofString name) cs := by
      simp [Document.valueAt?]
    rw [cacheViolations, extraViolations_eq, hentry, hentry, entryViolations, entryViolations]
    cases Document.get? (.ofString "enabled") cs <;> cases Document.get? (.ofString "size") cs <;>
      simp [Constraint.violation?, enabledViolations_eq, sizeViolations_eq]
  | _ => rfl

/-- **What is wrong is told by the table.** -/
theorem violations_eq (d : Document) : violations d = constraints.filterMap d.violationOf := by
  have htable : constraints.filterMap d.violationOf =
      constraints.flatMap fun pc => (d.violationOf pc).toList :=
    List.filterMap_eq_flatMap_toList _ _
  rw [htable]
  simp only [constraints, List.flatMap_cons, List.flatMap_nil, List.append_nil,
    Document.violationOf, SettingPath.names]
  cases d with
  | map es =>
    have hentry (name : String) (names : List String) :
        (Document.map es).valueAt? (name :: names) =
          (Document.get? (.ofString name) es).bind fun c => c.valueAt? names := rfl
    have hroot : (Constraint.kind .object).violation? .root (.map es) = none := rfl
    rw [violations, extraViolations_eq, entryViolations, hentry, hentry, hentry]
    cases Document.get? (.ofString "cache") es with
    | none => simp [Document.valueAt?, hroot]
    | some c => simp [Document.valueAt?, hroot, cacheViolations_eq]
  | _ => rfl

theorem Constraint.eq_wrongKind_of_violation? {k : SettingKind} {p : SettingPath} {v : Document}
    {x : Violation} (h : (kind k).violation? p v = some x) : x = .wrongKind p k v := by
  cases k <;> cases v <;> simp_all [violation?]

/-! ### The tests are right -/

namespace Document

variable {es : List (Document × Document)} {ns names : List String} {d v : Document}

theorem isIntegral_iff : v.isIntegral = true ↔ ∃ n : ℤ, v.toRat? = some (n : ℚ) := by
  cases v with
  | int n => exact iff_of_true rfl ⟨n, rfl⟩
  | float x =>
    simp only [isIntegral, toRat?, ← Binary64.toInt?_eq_some_iff, Option.isSome_iff_exists]
  | _ => simp [isIntegral, toRat?]

theorem isTooSmall_iff : v.isTooSmall = true ↔ Constraint.minimum.Broken v := by
  cases v with
  | int n =>
    simp only [isTooSmall, Constraint.Broken, toRat?, Option.some.injEq, exists_eq_left',
      decide_eq_true_eq, reduceCtorEq, or_false]
    exact_mod_cast Iff.rfl
  | float x =>
    have hleast : ((leastSize : ℕ) : ℚ) = 1 := Nat.cast_one
    simp only [isTooSmall, Constraint.Broken, toRat?, hleast, Document.float.injEq]
    exact Binary64.isLessThanOne_iff
  | _ => simp [isTooSmall, Constraint.Broken, toRat?]

theorem isAmong_text_iff {points : List ℕ} :
    isAmong ns (text points) = true ↔ ∃ n ∈ ns, text points = ofString n := by
  simp only [isAmong, List.any_eq_true, ofString, sameKey_text, decide_eq_true_eq,
    Document.text.injEq]

/-- The keys other than the names are texts, and no two of them are the same. -/
theorem TextKeys.exists_extraKeys (h : TextKeys es) (ns : List String) :
    ∃ ks : List (List ℕ), extraKeys ns es = ks.map text ∧ ks.Nodup ∧
      ∀ k, k ∈ ks ↔ text k ∈ es.map Prod.fst ∧ ∀ n ∈ ns, text k ≠ ofString n := by
  have hinjective : Function.Injective text := fun _ _ heq => Document.text.inj heq
  have hrange : es.map Prod.fst ∈ Set.range (List.map text) := by
    rw [Set.range_list_map]
    intro key hkey
    obtain ⟨e, he, rfl⟩ := List.mem_map.1 hkey
    obtain ⟨points, hpoints⟩ := h.texts e he
    exact ⟨points, hpoints.symm⟩
  obtain ⟨all, hall⟩ := hrange
  refine ⟨all.filter fun k => !isAmong ns (text k), ?_, ?_, fun k => ?_⟩
  · rw [extraKeys, ← hall, List.filter_map]
    rfl
  · have hnodup : (all.map text).Nodup := hall ▸ h.nodup
    exact (hnodup.of_map text).filter _
  · rw [← hall, List.mem_map_of_injective hinjective, List.mem_filter, Bool.not_eq_true',
      ← Bool.not_eq_true, isAmong_text_iff]
    simp only [not_exists, not_and, ne_eq]

theorem TextKeys.extraKeys_eq_nil_iff (h : TextKeys es) :
    extraKeys ns es = [] ↔ ¬(Constraint.names ns).Broken (.map es) := by
  obtain ⟨ks, hks, -, hmem⟩ := h.exists_extraKeys ns
  rw [hks, List.map_eq_nil_iff, List.eq_nil_iff_forall_not_mem, not_broken_names_iff]
  constructor
  · intro hnone e he
    obtain ⟨points, hpoints⟩ := h.texts e he
    by_contra hne
    refine hnone points ((hmem points).2 ⟨hpoints ▸ List.mem_map_of_mem he, fun n hn heq => ?_⟩)
    exact hne ⟨n, hn, hpoints.trans heq⟩
  · intro hall k hk
    obtain ⟨hkey, hne⟩ := (hmem k).1 hk
    obtain ⟨e, he, heq⟩ := List.mem_map.1 hkey
    obtain ⟨n, hn, hname⟩ := hall e he
    exact hne n hn (heq.symm.trans hname)

/-- A value violates a constraint, as far as the tests can tell, if the constraint does not hold of
it. -/
theorem IsJson.violation?_isSome_iff (hv : v.IsJson) (p : SettingPath) (c : Constraint) :
    (c.violation? p v).isSome = true ↔ c.Broken v := by
  cases c with
  | kind k =>
    cases k with
    | object => cases v <;> simp [Constraint.violation?, Constraint.Broken]
    | boolean => cases v <;> simp [Constraint.violation?, Constraint.Broken, isBool]
    | integer =>
      rw [Constraint.Broken, ← isIntegral_iff, Constraint.violation?]
      split <;> simp_all
  | names ns =>
    cases hv with
    | @map es hkeys _ =>
      rw [← not_iff_not, ← hkeys.extraKeys_eq_nil_iff, Constraint.violation?]
      split <;> simp_all
    | _ => simp [Constraint.violation?, Constraint.Broken]
  | minimum =>
    rw [← isTooSmall_iff, Constraint.violation?]
    split <;> simp_all

/-! ### Values at their places -/

theorem IsJson.of_hasAt (hd : d.IsJson) (h : d.HasAt names v) : v.IsJson := by
  induction h with
  | here d => exact hd
  | entry hmem _ ih => exact ih (hd.entries.values _ hmem)

/-- What is found under the keys is what they lead to. -/
theorem IsJson.valueAt?_eq_some_iff (hd : d.IsJson) :
    d.valueAt? names = some v ↔ d.HasAt names v := by
  induction names generalizing d with
  | nil => rw [valueAt?, Option.some.injEq, hasAt_nil_iff, eq_comm]
  | cons name names ih =>
    cases d with
    | map es =>
      have hentries := hd.entries
      rw [valueAt?, Option.bind_eq_some_iff]
      constructor
      · rintro ⟨c, hc, hv⟩
        have hmem : (ofString name, c) ∈ es := (get?_eq_some_iff hentries.keys).1 hc
        exact .entry hmem ((ih (hentries.values _ hmem)).1 hv)
      · rintro (_ | ⟨hmem, h⟩)
        exact ⟨_, (get?_eq_some_iff hentries.keys).2 hmem, (ih (hentries.values _ hmem)).2 h⟩
    | _ => exact iff_of_false nofun nofun

/-- **A violation is found where a constraint is broken.** -/
theorem IsJson.violationOf_isSome_iff (hd : d.IsJson) (pc : SettingPath × Constraint) :
    (d.violationOf pc).isSome = true ↔ d.Breaks pc := by
  rw [Option.isSome_iff_exists, Breaks]
  simp only [violationOf, Option.bind_eq_some_iff]
  constructor
  · rintro ⟨x, v, hv, hx⟩
    have hat := hd.valueAt?_eq_some_iff.1 hv
    have hsome : (pc.2.violation? pc.1 v).isSome = true := Option.isSome_iff_exists.2 ⟨x, hx⟩
    exact ⟨v, hat, ((hd.of_hasAt hat).violation?_isSome_iff pc.1 pc.2).1 hsome⟩
  · rintro ⟨v, hat, hbroken⟩
    have hsome := ((hd.of_hasAt hat).violation?_isSome_iff pc.1 pc.2).2 hbroken
    obtain ⟨x, hx⟩ := Option.isSome_iff_exists.1 hsome
    exact ⟨x, v, hd.valueAt?_eq_some_iff.2 hat, hx⟩

end Document

end SemverRange
