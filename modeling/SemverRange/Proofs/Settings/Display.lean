import SemverRange.Proofs.Dnf.Bounds
import SemverRange.Proofs.Formula.WellFormed
import SemverRange.Proofs.Settings.Steps
import SemverRange.Settings.Schema

/-!
# What can be shown

A message about a document shows the values that are wrong.  This fails only at an integer whose
numeral is too long, at whatever depth it lies in them; so a list or a mapping can be shown when its
parts can.  The values that are wrong are parts of the document, and hence what is wrong with a
document that can be shown can be told.

## Main definitions

* `Document.Within` — a value and its parts, however deep.
* `Document.Shown`, `Document.EntriesShown` — the value can be shown, and so can the keys and values
  of entries.
* `Document.TooLong` — a value with an integer in it whose numeral is too long.

## Main results

* `Document.failsFor_display` — a value can be shown unless it is too long.
* `Document.shown_list_iff`, `Document.shown_map_iff` — a collection and its parts.
* `allWithin_violations` — the values that are wrong are parts of the document.
* `exists_describe_violations` — **what is wrong with a document that can be shown can be told.**
* `tooLong_of_describe` — **what cannot be told is about a document that is too long.**
-/

namespace SemverRange

namespace Document

/-- The value can be shown. -/
def Shown (d : Document) : Prop := ∃ s, d.display = .ok s

/-- The keys and values can be shown. -/
def EntriesShown (es : List (Document × Document)) : Prop := ∀ e ∈ es, e.1.Shown ∧ e.2.Shown

/-- The value is the other one, or a part of it at whatever depth. -/
inductive Within : Document → Document → Prop
  | refl (d : Document) : Within d d
  | item {c d : Document} {ds : List Document} (hd : d ∈ ds) (h : Within c d) : Within c (.list ds)
  | member {c d : Document} {ds : List Document} (hd : d ∈ ds) (h : Within c d) : Within c (.set ds)
  | key {c : Document} {e : Document × Document} {es : List (Document × Document)} (he : e ∈ es)
      (h : Within c e.1) : Within c (.map es)
  | value {c : Document} {e : Document × Document} {es : List (Document × Document)} (he : e ∈ es)
      (h : Within c e.2) : Within c (.map es)
  | first {c a b : Document} (h : Within c a) : Within c (.pair a b)
  | second {c a b : Document} (h : Within c b) : Within c (.pair a b)

/-- The value has an integer in it whose numeral is too long. -/
def TooLong (d : Document) : Prop :=
  ∃ n : Int, Within (.int n) d ∧ Numeral.limit < (Nat.toDigits 10 n.natAbs).length

/-! ### Integers that are too long -/

theorem Within.trans {a b c : Document} (hab : a.Within b) (hbc : b.Within c) : a.Within c := by
  induction hbc with
  | refl => exact hab
  | item hd _ ih => exact .item hd ih
  | member hd _ ih => exact .member hd ih
  | key he _ ih => exact .key he ih
  | value he _ ih => exact .value he ih
  | first _ ih => exact .first ih
  | second _ ih => exact .second ih

theorem TooLong.within {c d : Document} (h : c.TooLong) (hc : c.Within d) : d.TooLong := by
  obtain ⟨n, hn, hlong⟩ := h
  exact ⟨n, hn.trans hc, hlong⟩

theorem failsFor_writeInt (n : Int) :
    FailsFor (fun f => f = .tooLongToWrite ∧ Numeral.limit < (Nat.toDigits 10 n.natAbs).length)
      (Numeral.writeInt n) := by
  have hwrite (n : Nat) :
      FailsFor (fun f => f = .tooLongToWrite ∧ Numeral.limit < (Nat.toDigits 10 n).length)
        (Numeral.write n) := by
    unfold Numeral.write
    dsimp only
    split
    · trivial
    · next hlong => exact ⟨rfl, Nat.lt_of_not_le hlong⟩
  cases n with
  | ofNat n => exact hwrite n
  | negSucc n => exact (hwrite (n + 1)).map

mutual

/-- A value can be shown unless an integer in it is too long. -/
theorem failsFor_display (d : Document) :
    FailsFor (fun f => f = .tooLongToWrite ∧ d.TooLong) d.display := by
  cases d with
  | int n =>
    exact EndsIn.map ((failsFor_writeInt n).mono_error fun _ h => ⟨h.1, n, .refl _, h.2⟩)
  | list ds =>
    refine EndsIn.bind ((failsFor_displayItems ds).mono_error ?_) fun _ _ => trivial
    rintro f ⟨hf, d, hd, h⟩
    exact ⟨hf, h.within (.item hd (.refl d))⟩
  | set ds =>
    refine EndsIn.bind ((failsFor_displayItems ds).mono_error ?_) fun _ _ => trivial
    rintro f ⟨hf, d, hd, h⟩
    exact ⟨hf, h.within (.member hd (.refl d))⟩
  | map es =>
    refine EndsIn.bind ((failsFor_displayEntries es).mono_error ?_) fun _ _ => trivial
    rintro f ⟨hf, e, he, h | h⟩
    · exact ⟨hf, h.within (.key he (.refl e.1))⟩
    · exact ⟨hf, h.within (.value he (.refl e.2))⟩
  | pair a b =>
    refine EndsIn.bind ((failsFor_display a).mono_error ?_) fun _ _ =>
      EndsIn.bind ((failsFor_display b).mono_error ?_) fun _ _ => trivial
    · exact fun f h => ⟨h.1, h.2.within (.first (.refl a))⟩
    · exact fun f h => ⟨h.1, h.2.within (.second (.refl b))⟩
  | _ => trivial

theorem failsFor_displayItems (ds : List Document) :
    FailsFor (fun f => f = .tooLongToWrite ∧ ∃ d ∈ ds, d.TooLong) (displayItems ds) := by
  cases ds with
  | nil => trivial
  | cons d ds =>
    refine EndsIn.bind ((failsFor_display d).mono_error ?_) fun _ _ =>
      EndsIn.bind ((failsFor_displayItems ds).mono_error ?_) fun _ _ => trivial
    · exact fun f h => ⟨h.1, d, List.mem_cons_self, h.2⟩
    · rintro f ⟨hf, c, hc, h⟩
      exact ⟨hf, c, List.mem_cons_of_mem d hc, h⟩

theorem failsFor_displayEntries (es : List (Document × Document)) :
    FailsFor (fun f => f = .tooLongToWrite ∧ ∃ e ∈ es, e.1.TooLong ∨ e.2.TooLong)
      (displayEntries es) := by
  cases es with
  | nil => trivial
  | cons e es =>
    obtain ⟨k, v⟩ := e
    refine EndsIn.bind ((failsFor_display k).mono_error ?_) fun _ _ =>
      EndsIn.bind ((failsFor_display v).mono_error ?_) fun _ _ =>
        EndsIn.bind ((failsFor_displayEntries es).mono_error ?_) fun _ _ => trivial
    · exact fun f h => ⟨h.1, (k, v), List.mem_cons_self, .inl h.2⟩
    · exact fun f h => ⟨h.1, (k, v), List.mem_cons_self, .inr h.2⟩
    · rintro f ⟨hf, e, he, h⟩
      exact ⟨hf, e, List.mem_cons_of_mem (k, v) he, h⟩

end

/-! ### Values and their parts -/

theorem exists_displayItems_iff {ds : List Document} :
    (∃ parts, displayItems ds = .ok parts) ↔ ∀ d ∈ ds, d.Shown := by
  induction ds with
  | nil => exact iff_of_true ⟨[], rfl⟩ (List.forall_mem_nil _)
  | cons d ds ih =>
    rw [List.forall_mem_cons, ← ih]
    simp only [displayItems, bind_eq_ok_iff]
    constructor
    · rintro ⟨parts, part, hpart, parts', hparts, -⟩
      exact ⟨⟨part, hpart⟩, parts', hparts⟩
    · rintro ⟨⟨part, hpart⟩, parts, hparts⟩
      exact ⟨part :: parts, part, hpart, parts, hparts, rfl⟩

theorem exists_displayEntries_iff {es : List (Document × Document)} :
    (∃ parts, displayEntries es = .ok parts) ↔ EntriesShown es := by
  induction es with
  | nil => exact iff_of_true ⟨[], rfl⟩ (List.forall_mem_nil _)
  | cons e es ih =>
    rw [EntriesShown, List.forall_mem_cons, ← EntriesShown, ← ih]
    simp only [displayEntries, bind_eq_ok_iff]
    constructor
    · rintro ⟨parts, key, hkey, value, hvalue, parts', hparts, -⟩
      exact ⟨⟨⟨key, hkey⟩, value, hvalue⟩, parts', hparts⟩
    · rintro ⟨⟨⟨key, hkey⟩, value, hvalue⟩, parts, hparts⟩
      exact ⟨_, key, hkey, value, hvalue, parts, hparts, rfl⟩

/-- A list can be shown if its values can. -/
theorem shown_list_iff {ds : List Document} : Shown (.list ds) ↔ ∀ d ∈ ds, d.Shown := by
  rw [← exists_displayItems_iff, Shown, display]
  simp only [bind_eq_ok_iff]
  constructor
  · rintro ⟨_, parts, hparts, -⟩
    exact ⟨parts, hparts⟩
  · rintro ⟨parts, hparts⟩
    exact ⟨_, parts, hparts, rfl⟩

/-- A mapping can be shown if its keys and values can. -/
theorem shown_map_iff {es : List (Document × Document)} : Shown (.map es) ↔ EntriesShown es := by
  rw [← exists_displayEntries_iff, Shown, display]
  simp only [bind_eq_ok_iff]
  constructor
  · rintro ⟨_, parts, hparts, -⟩
    exact ⟨parts, hparts⟩
  · rintro ⟨parts, hparts⟩
    exact ⟨_, parts, hparts, rfl⟩

/-- A set can be shown as its values can be listed. -/
theorem Shown.of_mem_set {ds : List Document} (h : Shown (.set ds)) : ∀ d ∈ ds, d.Shown := by
  obtain ⟨s, hs⟩ := h
  obtain ⟨parts, hparts, -⟩ := bind_eq_ok_iff.1 hs
  exact exists_displayItems_iff.1 ⟨parts, hparts⟩

/-- What is a part of a value can be shown if the value can. -/
theorem Shown.within {c d : Document} (hc : c.Within d) (h : d.Shown) : c.Shown := by
  induction hc with
  | refl => exact h
  | item hd _ ih => exact ih (shown_list_iff.1 h _ hd)
  | member hd _ ih => exact ih (h.of_mem_set _ hd)
  | key he _ ih => exact ih (shown_map_iff.1 h _ he).1
  | value he _ ih => exact ih (shown_map_iff.1 h _ he).2
  | first _ ih =>
    obtain ⟨s, hs⟩ := h
    obtain ⟨a, ha, -⟩ := bind_eq_ok_iff.1 hs
    exact ih ⟨a, ha⟩
  | second _ ih =>
    obtain ⟨s, hs⟩ := h
    obtain ⟨a, -, hb⟩ := bind_eq_ok_iff.1 hs
    obtain ⟨b, hb, -⟩ := bind_eq_ok_iff.1 hb
    exact ih ⟨b, hb⟩

/-- The entries of a mapping are those that were there, of which one may have another value, and a
new one. -/
theorem mem_insert {key value : Document} {es : List (Document × Document)}
    {e : Document × Document} (h : e ∈ insert key value es) :
    e.2 = value ∧ (e.1 = key ∨ ∃ v, (e.1, v) ∈ es) ∨ e ∈ es := by
  induction es with
  | nil =>
    obtain rfl := List.mem_singleton.1 h
    exact .inl ⟨rfl, .inl rfl⟩
  | cons e' es ih =>
    obtain ⟨k, v⟩ := e'
    rw [insert] at h
    split at h
    · rcases List.mem_cons.1 h with rfl | h
      · exact .inl ⟨rfl, .inr ⟨v, List.mem_cons_self⟩⟩
      · exact .inr (List.mem_cons_of_mem _ h)
    · rcases List.mem_cons.1 h with rfl | h
      · exact .inr List.mem_cons_self
      · rcases ih h with ⟨hvalue, hkey | ⟨v', hkey⟩⟩ | h
        · exact .inl ⟨hvalue, .inl hkey⟩
        · exact .inl ⟨hvalue, .inr ⟨v', List.mem_cons_of_mem _ hkey⟩⟩
        · exact .inr (List.mem_cons_of_mem _ h)

theorem get?_mem {key value : Document} {es : List (Document × Document)}
    (h : get? key es = some value) : ∃ k, (k, value) ∈ es := by
  obtain ⟨e, he, rfl⟩ := Option.map_eq_some_iff.1 h
  exact ⟨e.1, List.mem_of_find?_eq_some he⟩

/-- A key has a text it is sorted by if it can be shown. -/
theorem failsFor_plain (d : Document) : FailsFor (d.display = .error ·) d.plain := by
  unfold plain
  split
  · trivial
  · trivial
  · trivial
  · exact (EndsIn.self _).bind fun _ _ => trivial

end Document

/-! ### Telling what is wrong -/

/-- The values that a message about the violation shows. -/
def Violation.values : Violation → List Document
  | wrongKind _ _ value | tooSmall _ value => [value]
  | extra _ keys => keys

theorem failsFor_displayKeys (keys : List Document) :
    FailsFor (fun f => ∃ k ∈ keys, k.display = .error f) (displayKeys keys) := by
  refine EndsIn.bind (EndsIn.mapM fun k hk => ?_) fun _ _ => trivial
  have htold {α : Type} {x : Except Numeral.Fault α}
      (hx : FailsFor (k.display = .error ·) x) :
      FailsFor (fun f => ∃ k ∈ keys, k.display = .error f) x :=
    hx.mono_error fun _ hf => ⟨k, hk, hf⟩
  exact (htold (Document.failsFor_plain k)).bind fun _ _ =>
    (htold (EndsIn.self k.display)).bind fun _ _ => trivial

/-- A violation can be told unless one of its values cannot be shown. -/
theorem Violation.failsFor_describe (v : Violation) :
    FailsFor (fun f => ∃ d ∈ v.values, d.display = .error f) v.describe := by
  have hvalue (d : Document) :
      FailsFor (fun f => ∃ c ∈ [d], c.display = .error f) d.display :=
    (EndsIn.self d.display).mono_error fun _ hf => ⟨d, List.mem_cons_self, hf⟩
  have hcomplaint : FailsFor (fun f => ∃ d ∈ v.values, d.display = .error f) v.complaint := by
    cases v with
    | wrongKind path kind value => exact (hvalue value).bind fun _ _ => trivial
    | extra path keys => exact (failsFor_displayKeys keys).bind fun _ _ => trivial
    | tooSmall path value => exact (hvalue value).bind fun _ _ => trivial
  exact hcomplaint.bind fun _ _ => trivial

/-- All the values that the messages about these violations show are parts of the document. -/
def AllWithin (d : Document) (vs : List Violation) : Prop := ∀ v ∈ vs, ∀ c ∈ v.values, c.Within d

section Values

variable {c d : Document}

theorem allWithin_nil : AllWithin d [] := List.forall_mem_nil _

theorem allWithin_singleton {v : Violation} (h : ∀ c ∈ v.values, c.Within d) : AllWithin d [v] :=
  List.forall_mem_singleton.2 h

theorem AllWithin.append {vs ws : List Violation} (hv : AllWithin d vs) (hw : AllWithin d ws) :
    AllWithin d (vs ++ ws) := List.forall_mem_append.2 ⟨hv, hw⟩

/-- What is wrong with a part is wrong within the whole. -/
theorem AllWithin.mono {vs : List Violation} (h : AllWithin c vs) (hc : c.Within d) :
    AllWithin d vs := fun v hv a ha => (h v hv a ha).trans hc

theorem allWithin_wrongKind (d : Document) (path : SettingPath) (kind : SettingKind) :
    AllWithin d [.wrongKind path kind d] :=
  allWithin_singleton (List.forall_mem_singleton.2 (.refl d))

theorem allWithin_enabledViolations (d : Document) : AllWithin d (enabledViolations d) := by
  unfold enabledViolations
  split
  · exact allWithin_nil
  · exact allWithin_wrongKind d .enabled .boolean

theorem allWithin_sizeViolations (d : Document) : AllWithin d (sizeViolations d) := by
  unfold sizeViolations
  refine AllWithin.append ?_ ?_
  · split
    · exact allWithin_nil
    · exact allWithin_wrongKind d .size .integer
  · split
    · exact allWithin_singleton (List.forall_mem_singleton.2 (.refl d))
    · exact allWithin_nil

end Values

section Entries

variable (es : List (Document × Document))

theorem allWithin_extraViolations (path : SettingPath) (names : List String) :
    AllWithin (.map es) (extraViolations path names es) := by
  unfold extraViolations
  cases hkeys : extraKeys names es with
  | nil => exact allWithin_nil
  | cons k ks =>
    refine allWithin_singleton fun key hkey => ?_
    -- the keys that are told are among those of the mapping
    have hmem : key ∈ extraKeys names es := hkeys ▸ hkey
    obtain ⟨e, he, rfl⟩ := List.mem_map.1 (List.mem_filter.1 hmem).1
    exact .key he (.refl e.1)

theorem allWithin_entryViolations (name : String) {check : Document → List Violation}
    (hcheck : ∀ d, AllWithin d (check d)) :
    AllWithin (.map es) (entryViolations name check es) := by
  unfold entryViolations
  cases hd : Document.get? (.ofString name) es with
  | none => exact allWithin_nil
  | some d =>
    obtain ⟨k, hk⟩ := Document.get?_mem hd
    exact (hcheck d).mono (.value hk (.refl d))

end Entries

theorem allWithin_cacheViolations (d : Document) : AllWithin d (cacheViolations d) := by
  unfold cacheViolations
  split
  · next es =>
    have henabled := allWithin_entryViolations es "enabled" allWithin_enabledViolations
    have hsize := allWithin_entryViolations es "size" allWithin_sizeViolations
    exact ((allWithin_extraViolations es .cache cacheNames).append henabled).append hsize
  · exact allWithin_wrongKind d .cache .object

/-- **The values that are wrong with a document are parts of it.** -/
theorem allWithin_violations (d : Document) : AllWithin d (violations d) := by
  unfold violations
  split
  · next es =>
    have hcache := allWithin_entryViolations es "cache" allWithin_cacheViolations
    exact (allWithin_extraViolations es .root rootNames).append hcache
  · exact allWithin_wrongKind d .root .object

variable {d : Document}

/-- **What is wrong with a document that can be shown can be told.** -/
theorem exists_describe_violations (hd : d.Shown) :
    ∀ v ∈ violations d, ∃ line, v.describe = .ok line := by
  intro v hv
  cases hline : v.describe with
  | ok line => exact ⟨line, rfl⟩
  | error f =>
    obtain ⟨c, hc, hf⟩ := v.failsFor_describe.of_error hline
    obtain ⟨s, hs⟩ := hd.within (allWithin_violations d v hv c hc)
    rw [hf] at hs
    cases hs

/-- **What cannot be told is about an integer in the document whose numeral is too long.** -/
theorem tooLong_of_describe {v : Violation} {f : Numeral.Fault} (hv : v ∈ violations d)
    (h : v.describe = .error f) : f = .tooLongToWrite ∧ d.TooLong := by
  obtain ⟨c, hc, hf⟩ := v.failsFor_describe.of_error h
  obtain ⟨rfl, hlong⟩ := (Document.failsFor_display c).of_error hf
  exact ⟨rfl, hlong.within (allWithin_violations d v hv c hc)⟩

end SemverRange
