import Mathlib.Data.List.Lex
import SemverRange.Proofs.Settings.Constraints
import SemverRange.Proofs.Settings.Loading
import SemverRange.Proofs.Settings.OneLine
import SemverRange.Proofs.Settings.Places
import SemverRange.Proofs.Text.Quoted

/-!
# Which documents are valid, and what is told of the others

A document in JSON is accepted if and only if it breaks no constraint, and else the message has
one line for each constraint that it breaks, in the order of the table, behind a heading.  No line
breaks off within itself.  A line about keys names them all, in the order of their texts, so that
the message does not depend on the order of the entries.

## Main definitions

* `KeyShown` — what a key is shown as, from which it can be told from all others.
* `Constraint.Tells` — the line that tells of a constraint that a value breaks.
* `Document.Permuted`, `Document.Reordered` — the entries of one mapping, and those of a settings
  document and of its `cache`, in another order.

## Main results

* `displayKeys_map_text` — keys are shown in the order of their texts.
* `Violation.tells_of_describe` — what a violation is told as.
* `Settings.validate_congr` — **the order of the entries does not matter.**
* `Settings.validate_exact` — **which documents are accepted, and what is told of the others.**
-/

namespace SemverRange

open Document (TextKeys IsJson EntriesJson text)

/-! ### Keys in order -/

/-- Texts are ordered by their code points. -/
theorem pointsLe_iff {ms ns : List ℕ} : pointsLe ms ns = true ↔ ms ≤ ns := by
  -- the comparison goes along both texts, as the order of lists does
  rw [← not_lt]
  fun_induction pointsLe ms ns with
  | case1 ns => simp
  | case2 m ms => simp
  | case3 m ms n ns ih =>
    rw [Bool.or_eq_true, Bool.and_eq_true, decide_eq_true_eq, decide_eq_true_eq, ih,
      List.cons_lt_cons_iff, not_or, not_and]
    constructor
    · rintro (hlt | ⟨rfl, hle⟩)
      · exact ⟨by omega, fun heq => by omega⟩
      · exact ⟨Nat.lt_irrefl m, fun _ => hle⟩
    · rintro ⟨hnot, hle⟩
      rcases Nat.lt_or_eq_of_le (Nat.le_of_not_lt hnot) with hlt | rfl
      · exact .inl hlt
      · exact .inr ⟨rfl, hle rfl⟩

theorem pairwise_mergeSort_pointsLe (ks : List (List ℕ)) :
    (ks.mergeSort pointsLe).Pairwise (· ≤ ·) := by
  have htrans (a b c : List ℕ) (hab : pointsLe a b = true) (hbc : pointsLe b c = true) :
      pointsLe a c = true :=
    pointsLe_iff.2 ((pointsLe_iff.1 hab).trans (pointsLe_iff.1 hbc))
  have htotal (a b : List ℕ) : (pointsLe a b || pointsLe b a) = true := by
    rw [Bool.or_eq_true, pointsLe_iff, pointsLe_iff]
    exact le_total a b
  exact (List.pairwise_mergeSort htrans htotal ks).imp fun h => pointsLe_iff.1 h

/-- In order the keys do not depend on the order in which they were. -/
theorem mergeSort_pointsLe_congr {ks js : List (List ℕ)} (h : ks.Perm js) :
    ks.mergeSort pointsLe = js.mergeSort pointsLe := by
  -- a list in order is determined by its elements
  have hperm : (ks.mergeSort pointsLe).Perm (js.mergeSort pointsLe) :=
    ((ks.mergeSort_perm pointsLe).trans h).trans (js.mergeSort_perm pointsLe).symm
  exact hperm.eq_of_pairwise (fun a b _ _ => le_antisymm) (pairwise_mergeSort_pointsLe ks)
    (pairwise_mergeSort_pointsLe js)

/-- Keys are shown in the order of their texts. -/
theorem displayKeys_map_text (ks : List (List ℕ)) : displayKeys (ks.map text) =
    .ok (String.intercalate ", " ((ks.mergeSort pointsLe).map quoted)) := by
  have htexts : (ks.map text).mapM (fun k => do
      let sortedBy ← k.plain
      let shown ← k.display
      pure (sortedBy, shown)) = .ok (ks.map fun k => (k, quoted k)) :=
    mapM_eq_ok_map fun k _ => rfl
  -- what a key is shown as plays no part in the order, so the keys can be sorted first
  have hsort : (ks.map fun k => (k, quoted k)).mergeSort (fun s t => pointsLe s.1 t.1) =
      (ks.mergeSort pointsLe).map fun k => (k, quoted k) := by
    symm
    apply List.map_mergeSort
    intro k _ j _
    rfl
  rw [displayKeys, htexts]
  simp only [bind, Except.bind, hsort, List.map_map]
  rfl

/-! ### Lines -/

/-- The text shows the key: it is the key between quotes. -/
structure KeyShown (key : List ℕ) (shown : String) : Prop where
  /-- What cannot be seen, or would be mistaken for something else, is escaped. -/
  eq : shown = quoted key
  /-- No other key is shown so. -/
  unique : AreCodePoints key → ∀ other, AreCodePoints other → shown = quoted other → other = key
  /-- A key of characters that stand for themselves is shown as it is. -/
  plain : ∀ cs, key = pointsOf cs → (∀ c ∈ cs, StandsForItself c) →
    shown = String.ofList ('\'' :: cs ++ ['\''])

theorem keyShown_quoted (key : List ℕ) : KeyShown key (quoted key) where
  eq := rfl
  unique hkey _ hother h := ((quoted_inj hkey hother).1 h).symm
  plain := by
    rintro cs rfl h
    exact quotedChars_of_standsForItself h

/-- The line that tells that the value at the place breaks the constraint.  It shows the value, or
else all the keys that are not among the names, in the order of their texts. -/
inductive Constraint.Tells (p : SettingPath) : Document → Constraint → String → Prop
  | kind {v : Document} {shown : String} (k : SettingKind) (h : v.display = .ok shown) :
    Tells p v (.kind k)
      ("- " ++ p.describe ++ ": " ++ (shown ++ " is not of type '" ++ k.name ++ "'"))
  | names {es : List (Document × Document)} {ns : List String} {ks : List (List ℕ)}
      {shown : List String} (hsorted : ks.Pairwise (· < ·))
      (hkeys : ∀ k, k ∈ ks ↔ text k ∈ es.map Prod.fst ∧ ∀ n ∈ ns, text k ≠ .ofString n)
      (hshown : List.Forall₂ KeyShown ks shown) :
    Tells p (.map es) (.names ns)
      ("- " ++ p.describe ++ ": " ++ ("Additional properties are not allowed (" ++
        String.intercalate ", " shown ++ " " ++
        (if ks.length = 1 then "was" else "were") ++ " unexpected)"))
  | minimum {v : Document} {shown : String} (h : v.display = .ok shown) :
    Tells p v .minimum
      ("- " ++ p.describe ++ ": " ++
        (shown ++ " is less than the minimum of " ++ toString leastSize))

/-- The line tells that the document breaks the constraint. -/
def Document.Tells (d : Document) (pc : SettingPath × Constraint) (line : String) : Prop :=
  ∃ v, d.HasAt pc.1.names v ∧ pc.2.Tells pc.1 v line

theorem Violation.describe_eq_ok_iff {x : Violation} {line : String} : x.describe = .ok line ↔
    ∃ s, x.complaint = .ok s ∧ "- " ++ x.path.describe ++ ": " ++ s = line := by
  rw [describe, bind_eq_ok_iff]
  simp only [pure, Except.pure, Except.ok.injEq]

section Value

variable {v : Document} {p : SettingPath} {c : Constraint} {x : Violation} {line : String}

/-- A value of the wrong kind is shown. -/
theorem Violation.tells_of_wrongKind {k : SettingKind}
    (h : (wrongKind p k v).describe = .ok line) : (Constraint.kind k).Tells p v line := by
  obtain ⟨s, hs, rfl⟩ := describe_eq_ok_iff.1 h
  rw [complaint, bind_eq_ok_iff] at hs
  obtain ⟨shown, hshown, heq⟩ := hs
  obtain rfl := Except.ok.inj heq
  exact .kind k hshown

/-- A value that is too small is shown. -/
theorem Violation.tells_of_tooSmall (h : (tooSmall p v).describe = .ok line) :
    Constraint.minimum.Tells p v line := by
  obtain ⟨s, hs, rfl⟩ := describe_eq_ok_iff.1 h
  rw [complaint, bind_eq_ok_iff] at hs
  obtain ⟨shown, hshown, heq⟩ := hs
  obtain rfl := Except.ok.inj heq
  exact .minimum hshown

/-- The keys that are not among the names are told, each of them once. -/
theorem Violation.tells_of_extra {es : List (Document × Document)} {ns : List String}
    (hes : TextKeys es) (h : (extra p (extraKeys ns es)).describe = .ok line) :
    (Constraint.names ns).Tells p (.map es) line := by
  obtain ⟨ks, hks, hnodup, hmem⟩ := hes.exists_extraKeys ns
  obtain ⟨s, hs, rfl⟩ := describe_eq_ok_iff.1 h
  rw [hks, complaint, displayKeys_map_text, List.length_map] at hs
  obtain rfl := Except.ok.inj hs
  have hperm := ks.mergeSort_perm pointsLe
  -- they are in order, and strictly so since no two keys are the same
  have hsorted : (ks.mergeSort pointsLe).Pairwise (· < ·) :=
    ((pairwise_mergeSort_pointsLe ks).and (hperm.nodup_iff.2 hnodup)).imp fun h =>
      lt_of_le_of_ne h.1 h.2
  rw [← hperm.length_eq]
  refine .names hsorted (fun k => by rw [hperm.mem_iff, hmem]) ?_
  exact List.forall₂_map_right_iff.2 (List.forall₂_same.2 fun k _ => keyShown_quoted k)

/-- What a violation is told as. -/
theorem Violation.tells_of_describe (hv : v.IsJson) (hx : c.violation? p v = some x)
    (h : x.describe = .ok line) : c.Tells p v line := by
  cases c with
  | kind k =>
    obtain rfl := Constraint.eq_wrongKind_of_violation? hx
    exact tells_of_wrongKind h
  | names ns =>
    -- only a mapping breaks a constraint on keys
    cases hv with
    | @map es hkeys _ =>
      rw [Constraint.violation?] at hx
      split at hx
      · cases hx
      · obtain rfl := Option.some.inj hx
        exact tells_of_extra hkeys h
    | _ => cases hx
  | minimum =>
    rw [Constraint.violation?] at hx
    split at hx
    · obtain rfl := Option.some.inj hx
      exact tells_of_tooSmall h
    · cases hx

theorem SettingPath.oneLine_describe (p : SettingPath) : OneLine p.describe.toList := by
  cases p <;> decide

theorem SettingKind.oneLine_name (k : SettingKind) : OneLine k.name.toList := by
  cases k <;> decide

/-- No line breaks off within itself. -/
theorem Constraint.Tells.oneLine (hv : v.IsJson) (h : c.Tells p v line) : OneLine line.toList := by
  -- a line is put together of fixed texts, which have no line end, and of what is shown
  cases h with
  | @kind _ shown k h =>
    simp only [oneLine_toList_append]
    exact ⟨⟨⟨by decide, p.oneLine_describe⟩, by decide⟩,
      ⟨⟨hv.oneLine h, by decide⟩, k.oneLine_name⟩, by decide⟩
  | @names es ns ks shown _ _ hshown =>
    have hkeys : OneLine (String.intercalate ", " shown).toList := by
      refine oneLine_intercalate (by decide) fun s hs => ?_
      obtain ⟨k, -, hk⟩ := exists_of_mem_of_forall₂ hshown hs
      rw [hk.eq]
      exact oneLine_quoted k
    have hverb : OneLine (if ks.length = 1 then "was" else "were").toList := by
      split <;> decide
    simp only [oneLine_toList_append]
    exact ⟨⟨⟨by decide, p.oneLine_describe⟩, by decide⟩,
      ⟨⟨⟨by decide, hkeys⟩, by decide⟩, hverb⟩, by decide⟩
  | @minimum _ shown h =>
    simp only [oneLine_toList_append]
    exact ⟨⟨⟨by decide, p.oneLine_describe⟩, by decide⟩, ⟨hv.oneLine h, by decide⟩, by decide⟩

end Value

/-! ### All lines -/

/-- What is made of the elements that `f` finds something for is made of all elements that it is
found for, in their order. -/
theorem forall₂_filter_of_filterMap {α β γ : Type} {f : α → Option β} {R : β → γ → Prop}
    {S : α → γ → Prop} {as : List α} {cs : List γ} (h : List.Forall₂ R (as.filterMap f) cs)
    (hRS : ∀ a b c, f a = some b → R b c → S a c) :
    List.Forall₂ S (as.filter fun a => (f a).isSome) cs := by
  induction as generalizing cs with
  | nil =>
    cases h
    exact .nil
  | cons a as ih =>
    -- an element for which nothing is found is on neither side
    cases ha : f a with
    | none =>
      rw [List.filterMap_cons_none ha] at h
      rw [List.filter_cons_of_neg (by simp [ha])]
      exact ih h
    | some b =>
      rw [List.filterMap_cons_some ha] at h
      rw [List.filter_cons_of_pos (by simp [ha])]
      cases h with
      | cons hb htail => exact .cons (hRS a b _ ha hb) (ih htail)

/-- The lines of a message are the heading and the lines that it was made of. -/
theorem Settings.Fault.splitOn_message_invalid {lines : List String}
    (h : ∀ line ∈ lines, OneLine line.toList) (hne : lines ≠ []) :
    (Fault.invalid lines).message.toList.splitOn '\n' =
      "Invalid settings:".toList :: lines.map String.toList := by
  have hwording : (Fault.invalid lines).message =
      "Invalid settings:\n" ++ String.intercalate "\n" lines := rfl
  have hmessage : (Fault.invalid lines).message.toList =
      ['\n'].intercalate ("Invalid settings:".toList :: lines.map String.toList) := by
    have hmap : lines.map String.toList ≠ [] := fun hnil => hne (List.map_eq_nil_iff.1 hnil)
    have hheading : "Invalid settings:\n".toList = "Invalid settings:".toList ++ ['\n'] := by decide
    have hsep : "\n".toList = ['\n'] := by decide
    rw [List.intercalate_cons_of_ne_nil hmap, hwording, String.toList_append,
      String.toList_intercalate, hheading, hsep]
  -- the message comes apart as it was put together, for no line has a line end within it
  rw [hmessage, List.splitOn_intercalate _ _ (List.cons_ne_nil _ _)]
  intro cs hcs hmem
  rcases List.mem_cons.1 hcs with rfl | hcs
  · revert hmem
    decide
  · obtain ⟨line, hline, rfl⟩ := List.mem_map.1 hcs
    exact h line hline '\n' hmem rfl

/-- The document is accepted, or there is one line for each constraint that it breaks. -/
theorem Settings.exists_lines {d : Document} (hd : d.IsJson) : ∃ lines,
    validate d = (if lines.isEmpty then .ok () else .error (.invalid lines)) ∧
    List.Forall₂ d.Tells (constraints.filter fun pc => (d.violationOf pc).isSome) lines := by
  -- whatever a document in JSON breaks can be told
  have hdescribe := exists_describe_violations hd.shown
  obtain ⟨lines, hlines, hall⟩ := exists_mapM_eq_ok fun x hx =>
    (hdescribe x hx).imp fun line hline => And.intro hline hline
  refine ⟨lines, ?_, ?_⟩
  · rw [validate, hlines]
    simp only [Except.mapError, bind, Except.bind]
    split <;> rfl
  · rw [violations_eq] at hall
    refine forall₂_filter_of_filterMap hall fun pc x line hx hline => ?_
    obtain ⟨v, hv, hviolation⟩ := Option.bind_eq_some_iff.1 hx
    have hat := hd.valueAt?_eq_some_iff.1 hv
    exact ⟨v, hat, Violation.tells_of_describe (hd.of_hasAt hat) hviolation hline⟩

/-! ### The order of entries -/

/-- The values are the same, or mappings with the same entries in another order. -/
inductive Document.Permuted : Document → Document → Prop
  | same (d : Document) : Permuted d d
  | map {es fs : List (Document × Document)} (h : es.Perm fs) : Permuted (.map es) (.map fs)

/-- The entries are the same, or that of `cache` with permuted values. -/
def Document.SameEntry (f g : Document × Document) : Prop :=
  f.1 = g.1 ∧ (f.2 = g.2 ∨ f.1 = .ofString "cache" ∧ f.2.Permuted g.2)

/-- The documents are the same, or mappings with the same entries in another order, and so are the
values of `cache` in them. -/
inductive Document.Reordered : Document → Document → Prop
  | same (d : Document) : Reordered d d
  | map {es fs gs : List (Document × Document)} (hroot : es.Perm fs)
      (hcache : List.Forall₂ SameEntry fs gs) : Reordered (.map es) (.map gs)

/-- In whatever order there are keys, they are told in the same line. -/
theorem describe_extra_congr (p : SettingPath) {es fs : List (Document × Document)}
    (hes : TextKeys es) (hkeys : (es.map Prod.fst).Perm (fs.map Prod.fst)) (ns : List String) :
    (Violation.extra p (extraKeys ns es)).describe =
      (Violation.extra p (extraKeys ns fs)).describe := by
  obtain ⟨ks, hks, hnodup, hmem⟩ := hes.exists_extraKeys ns
  obtain ⟨js, hjs, hnodup', hmem'⟩ := (hes.of_perm hkeys).exists_extraKeys ns
  -- on both sides these are the same texts, each once, and the line depends on no more
  have hperm : ks.Perm js := by
    refine (List.perm_ext_iff_of_nodup hnodup hnodup').2 fun k => ?_
    rw [hmem, hmem', hkeys.mem_iff]
  rw [hks, hjs, Violation.describe, Violation.describe, Violation.complaint, Violation.complaint,
    displayKeys_map_text, displayKeys_map_text, mergeSort_pointsLe_congr hperm, List.length_map,
    List.length_map, hperm.length_eq]
  rfl

/-- What is told about the keys of a mapping does not depend on their order. -/
theorem Constraint.describe_violation?_names (p : SettingPath) {es fs : List (Document × Document)}
    (hes : TextKeys es) (hkeys : (es.map Prod.fst).Perm (fs.map Prod.fst)) (ns : List String) :
    ((names ns).violation? p (.map es)).map Violation.describe =
      ((names ns).violation? p (.map fs)).map Violation.describe := by
  have hnil : extraKeys ns es = [] ↔ extraKeys ns fs = [] := by
    have hperm : (extraKeys ns es).Perm (extraKeys ns fs) := hkeys.filter _
    rw [← List.length_eq_zero_iff, hperm.length_eq, List.length_eq_zero_iff]
  rw [violation?, violation?]
  by_cases h : extraKeys ns es = []
  · rw [if_pos h, if_pos (hnil.1 h)]
  · rw [if_neg h, if_neg (fun h' => h (hnil.2 h')), Option.map_some, Option.map_some,
      describe_extra_congr p hes hkeys ns]

namespace Document

variable {d d' v w : Document} {es fs gs : List (Document × Document)}

theorem Permuted.isJson (h : v.Permuted w) (hv : v.IsJson) : w.IsJson := by
  cases h with
  | same => exact hv
  | map hperm =>
    have hes := hv.entries
    exact .map (hes.keys.of_perm (hperm.map Prod.fst)) fun e he =>
      hes.values e (hperm.mem_iff.2 he)

/-- A name has the same value in whatever order the entries stand. -/
theorem get?_perm (hes : TextKeys es) (hperm : es.Perm fs) (name : String) :
    get? (ofString name) es = get? (ofString name) fs := by
  ext value
  have hfs : TextKeys fs := hes.of_perm (hperm.map Prod.fst)
  rw [ofString, get?_eq_some_iff hes, get?_eq_some_iff hfs, hperm.mem_iff]

theorem Permuted.valueAt? (h : v.Permuted w) (hv : v.IsJson) (name : String) :
    v.valueAt? [name] = w.valueAt? [name] := by
  cases h with
  | same => rfl
  | map hperm => rw [Document.valueAt?, Document.valueAt?, get?_perm hv.entries.keys hperm]

/-- What is told of the kind of a value and of its keys does not depend on their order. -/
theorem Permuted.describe_violation? (h : v.Permuted w) (hv : v.IsJson) (p : SettingPath)
    {c : Constraint} (hc : c = .kind .object ∨ ∃ ns, c = .names ns) :
    (c.violation? p v).map Violation.describe = (c.violation? p w).map Violation.describe := by
  cases h with
  | same => rfl
  | map hperm =>
    rcases hc with rfl | ⟨ns, rfl⟩
    · rfl
    · exact Constraint.describe_violation?_names p hv.entries.keys (hperm.map Prod.fst) ns

/-- Where the keys are the same and the values are the same or permuted, a key finds such values. -/
theorem rel_get?_of_forall₂ (h : List.Forall₂ SameEntry fs gs) (key : Document) :
    Option.Rel Permuted (get? key fs) (get? key gs) := by
  induction h with
  | nil => exact .none
  | @cons f g fs gs hfg _ ih =>
    obtain ⟨hkey, hvalue⟩ := hfg
    -- the first entries have the same key, so that both are what is looked for or neither is
    rw [get?, get?, List.find?_cons, List.find?_cons, ← hkey]
    cases sameKey f.1 key with
    | false => exact ih
    | true =>
      refine .some ?_
      rcases hvalue with heq | ⟨-, hpermuted⟩
      · exact heq ▸ .same f.2
      · exact hpermuted

/-- The values of `cache` are found together, and are permuted. -/
theorem rel_valueAt?_cache (hes : TextKeys es) (hroot : es.Perm fs)
    (hcache : List.Forall₂ SameEntry fs gs) :
    Option.Rel Permuted (valueAt? (.map es) ["cache"]) (valueAt? (.map gs) ["cache"]) := by
  have hentry (es : List (Document × Document)) :
      valueAt? (.map es) ["cache"] = get? (ofString "cache") es := by
    simp [Document.valueAt?]
  rw [hentry, hentry, get?_perm hes hroot]
  exact rel_get?_of_forall₂ hcache _

/-- What comes to the same for permuted values comes to the same for values that are found
together. -/
theorem bind_congr_of_rel {α : Type} {o o' : Option Document} {f : Document → Option α}
    (h : Option.Rel Permuted o o') (hf : ∀ v w, o = some v → v.Permuted w → f v = f w) :
    o.bind f = o'.bind f := by
  cases h with
  | none => rfl
  | some hvw => exact hf _ _ rfl hvw

/-- What is told of each constraint does not depend on the order of the entries. -/
theorem Reordered.describe_violationOf (h : d.Reordered d') (hd : d.IsJson) :
    ∀ pc ∈ constraints, (d.violationOf pc).map Violation.describe =
      (d'.violationOf pc).map Violation.describe := by
  cases h with
  | same => exact fun _ _ => rfl
  | @map es fs gs hroot hcache =>
    have hkeys : (es.map Prod.fst).Perm (gs.map Prod.fst) := by
      have heq : fs.map Prod.fst = gs.map Prod.fst := by
        rw [← List.forall₂_eq_eq_eq, List.forall₂_map_left_iff, List.forall₂_map_right_iff]
        exact hcache.imp fun _ _ h => h.1
      exact heq ▸ hroot.map Prod.fst
    have hrel := rel_valueAt?_cache hd.entries.keys hroot hcache
    have hjson : ∀ c, valueAt? (.map es) ["cache"] = some c → c.IsJson := fun c hc =>
      hd.of_hasAt (hd.valueAt?_eq_some_iff.1 hc)
    -- what is within `cache` is the same in both documents
    have hinner (name : String) :
        valueAt? (.map es) ["cache", name] = valueAt? (.map gs) ["cache", name] := by
      have hbind (es : List (Document × Document)) : valueAt? (.map es) ["cache", name] =
          (valueAt? (.map es) ["cache"]).bind (valueAt? · [name]) := by
        simp [Document.valueAt?]
      rw [hbind, hbind]
      exact bind_congr_of_rel hrel fun v w hv hvw => hvw.valueAt? (hjson v hv) name
    have hcacheOf {c : Constraint} (hc : c = .kind .object ∨ ∃ ns, c = .names ns) :
        ((valueAt? (.map es) ["cache"]).bind (c.violation? .cache)).map Violation.describe =
          ((valueAt? (.map gs) ["cache"]).bind (c.violation? .cache)).map Violation.describe := by
      rw [Option.map_bind, Option.map_bind]
      exact bind_congr_of_rel hrel fun v w hv hvw =>
        hvw.describe_violation? (hjson v hv) .cache hc
    have hinnerOf (p : SettingPath) (c : Constraint) (name : String) :
        ((valueAt? (.map es) ["cache", name]).bind (c.violation? p)).map Violation.describe =
          ((valueAt? (.map gs) ["cache", name]).bind (c.violation? p)).map Violation.describe := by
      rw [hinner]
    -- the constraints of the table: two on the document, two on `cache` and three within it
    simp only [constraints, List.forall_mem_cons]
    exact ⟨rfl, Constraint.describe_violation?_names .root hd.entries.keys hkeys rootNames,
      hcacheOf (.inl rfl), hcacheOf (.inr ⟨_, rfl⟩), hinnerOf _ _ "enabled", hinnerOf _ _ "size",
      hinnerOf _ _ "size", List.forall_mem_nil _⟩

end Document

namespace Settings

open Document

/-- **The order of the entries does not matter**, neither that of the document's nor that of the
entries of `cache`. -/
theorem validate_congr {d d' : Document} (hd : d.IsJson) (h : d.Reordered d') :
    validate d' = validate d := by
  -- the report is made of what the violations are told as, and of nothing else
  have hmapM (vs : List Violation) :
      vs.mapM Violation.describe = (vs.map Violation.describe).mapM id := by
    rw [List.mapM_map]
    rfl
  have hmap : (violations d).map Violation.describe = (violations d').map Violation.describe := by
    rw [violations_eq, violations_eq, List.map_filterMap, List.map_filterMap]
    exact List.filterMap_congr (h.describe_violationOf hd)
  rw [validate, validate, hmapM, hmapM, hmap]

/-- **Validation is complete and exact.**  A document in JSON is accepted if and only if it is
valid.  Else there is one line for each constraint that the document breaks, in the order of the
table, which shows the value that breaks it or all the keys that are not among the names; and the
message consists of the heading and these lines.  The order of the entries of the document and of
`cache` does not matter, nor does the order in which the places are visited, since what is found is
sorted by place. -/
theorem validate_exact {d : Document} (hd : d.IsJson) :
    (validate d = .ok () ↔ d.IsSettings) ∧
    (¬d.IsSettings → ∃ broken lines, validate d = .error (.invalid lines) ∧
      broken.Sublist constraints ∧ (∀ pc ∈ constraints, pc ∈ broken ↔ d.Breaks pc) ∧
      List.Forall₂ d.Tells broken lines ∧
      (Fault.invalid lines).message.toList.splitOn '\n' =
        "Invalid settings:".toList :: lines.map String.toList) ∧
    (∀ d', d.Reordered d' → validate d' = validate d) ∧
    ∀ xs, FoundIn d xs → report xs = validate d := by
  obtain ⟨lines, hvalidate, hall⟩ := exists_lines hd
  have hbroken : ∀ pc ∈ constraints,
      pc ∈ constraints.filter (fun pc => (d.violationOf pc).isSome) ↔ d.Breaks pc := by
    intro pc hpc
    rw [List.mem_filter, hd.violationOf_isSome_iff]
    exact and_iff_right hpc
  -- a valid document is one that breaks no constraint, so there is nothing to tell
  have hempty : lines = [] ↔ d.IsSettings := by
    rw [isSettings_iff, ← List.length_eq_zero_iff, ← hall.length_eq, List.length_eq_zero_iff,
      List.filter_eq_nil_iff]
    exact forall₂_congr fun pc _ => not_congr (hd.violationOf_isSome_iff pc)
  refine ⟨?_, fun hnot => ?_, fun d' h => validate_congr hd h, fun xs h => report_eq_validate h⟩
  · rw [hvalidate, ← hempty]
    cases lines <;> simp
  · have hne : lines ≠ [] := fun heq => hnot (hempty.1 heq)
    refine ⟨_, lines, ?_, List.filter_sublist, hbroken, hall, ?_⟩
    · rw [hvalidate, if_neg (by simpa using hne)]
    · refine Fault.splitOn_message_invalid (fun line hline => ?_) hne
      obtain ⟨pc, -, v, hat, htells⟩ := exists_of_mem_of_forall₂ hall hline
      exact htells.oneLine (hd.of_hasAt hat)

/-- The size `0.5` is no integer and less than one, and the entries `mode` and `extra` mean
nothing. -/
def wrong : Document :=
  .map [(.ofString "cache", .map [(.ofString "size", .float (.finite false 1 (-1))),
      (.ofString "mode", .null)]),
    (.ofString "extra", .bool true)]

/-- The same with all entries the other way round. -/
def wrongReversed : Document :=
  .map [(.ofString "extra", .bool true),
    (.ofString "cache", .map [(.ofString "mode", .null),
      (.ofString "size", .float (.finite false 1 (-1)))])]

/-- What is wrong with it, the innermost place first. -/
def foundInWrong : List Violation :=
  [.wrongKind .size .integer (.float (.finite false 1 (-1))),
    .tooSmall .size (.float (.finite false 1 (-1))),
    .extra .cache [.ofString "mode"], .extra .root [.ofString "extra"]]

theorem validate_exact_wrong :
    wrong.IsJson ∧ ¬wrong.IsSettings ∧ wrong.Reordered wrongReversed ∧ FoundIn wrong foundInWrong ∧
    (∃ broken lines, validate wrong = .error (.invalid lines) ∧ broken.Sublist constraints ∧
      (∀ pc ∈ constraints, pc ∈ broken ↔ wrong.Breaks pc) ∧ List.Forall₂ wrong.Tells broken lines ∧
      (Fault.invalid lines).message.toList.splitOn '\n' =
        "Invalid settings:".toList :: lines.map String.toList) ∧
    validate wrongReversed = validate wrong ∧ report foundInWrong = validate wrong := by
  have hlast (name : String) (v : Document) : TextKeys [(.ofString name, v)] :=
    textKeys_cons.2 ⟨⟨_, rfl⟩, List.not_mem_nil, textKeys_nil⟩
  have hcache : IsJson (.map [(.ofString "size", .float (.finite false 1 (-1))),
      (.ofString "mode", .null)]) := by
    refine .map (textKeys_cons.2 ⟨⟨_, rfl⟩, ?_, hlast _ _⟩) ?_
    · simp [ofString, pointsOf]
    · simp only [List.forall_mem_cons]
      exact ⟨.float _, .null, List.forall_mem_nil _⟩
  have hjson : wrong.IsJson := by
    refine .map (textKeys_cons.2 ⟨⟨_, rfl⟩, ?_, hlast _ _⟩) ?_
    · simp [ofString, pointsOf]
    · simp only [List.forall_mem_cons]
      exact ⟨hcache, .bool true, List.forall_mem_nil _⟩
  have hnot : ¬wrong.IsSettings := by
    rintro ⟨hkeys, -⟩
    have hextra := hkeys (.ofString "extra", .bool true) (by simp)
    exact absurd (Document.text.inj hextra) (by decide)
  have hreordered : wrong.Reordered wrongReversed :=
    .map (.swap ..) (.cons ⟨rfl, .inl rfl⟩ (.cons ⟨rfl, .inr ⟨rfl, .map (.swap ..)⟩⟩ .nil))
  have hfound : FoundIn wrong foundInWrong := by
    intro p
    cases p <;> rfl
  obtain ⟨-, hlines, hsame, hreport⟩ := validate_exact hjson
  exact ⟨hjson, hnot, hreordered, hfound, hlines hnot, hsame _ hreordered, hreport _ hfound⟩

end Settings

end SemverRange
