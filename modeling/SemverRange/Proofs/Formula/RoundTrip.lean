import SemverRange.Formula.Printer
import SemverRange.Proofs.Dnf.Bounds
import SemverRange.Proofs.Formula.Unambiguous

/-!
# What is written reads back

The written form of a well-formed formula has a derivation, and the derivation denotes the
formula again, but for clauses that put an equality sign before a version: the sign is not
written, so that the version comes back bare.

## Main definitions

* `Legible` — a number that is not negative, and whose numeral is not too long.
* `Formula.WellFormed` — a formula that can be written and means something.
* `Formula.bareEquals` — the formula without equality signs before versions.

## Main results

* `Formula.exists_derivation_of_render` — the written form of a well-formed formula has a
  derivation.
* `Formula.parse_print` — **what is written reads back**.
-/

namespace SemverRange

/-! ### Well-formed formulas -/

/-- The number is not negative, and its numeral is not too long. -/
def Legible (n : ℤ) : Prop := 0 ≤ n ∧ (Nat.toDigits 10 n.toNat).length ≤ Numeral.limit

instance (n : ℤ) : Decidable (Legible n) := inferInstanceAs (Decidable (_ ∧ _))

/-- A text of identifier characters. -/
def IsIdentifier (s : String) : Prop := s ≠ "" ∧ s.toList.all isIdentifierChar = true

instance (s : String) : Decidable (IsIdentifier s) := inferInstanceAs (Decidable (_ ∧ _))

/-- A text that consists of digits would be read as a number. -/
inductive Identifier.WellFormed : Identifier → Prop
  | num {n : ℤ} : Legible n → WellFormed (.num n)
  | alpha {s : String} : IsIdentifier s → s.toList.all Char.isDigit = false → WellFormed (.alpha s)

/-- The numbers and identifiers of the version are well formed. -/
structure Version.WellFormed (v : Version) : Prop where
  /-- The first number. -/
  major : Legible v.major
  /-- The second number. -/
  minor : Legible v.minor
  /-- The third number. -/
  patch : Legible v.patch
  /-- The identifiers after the dash. -/
  prerelease : ∀ i ∈ v.prerelease, i.WellFormed
  /-- The identifiers after the plus sign. -/
  build : ∀ s ∈ v.build, IsIdentifier s

/-- The target is not blank, and its numbers and identifiers are well formed. -/
inductive Target.WellFormed : Target → Prop
  | version {v : Version} : v.WellFormed → WellFormed (.version v)
  | any : WellFormed .any
  | major {m : ℤ} : Legible m → WellFormed (.major m)
  | minor {m n : ℤ} : Legible m → Legible n → WellFormed (.minor m n)

/-- Neither the clause nor its operator is blank, and its target is well formed. -/
inductive Clause.WellFormed : Clause → Prop
  | bare {t : Target} : t.WellFormed → WellFormed (.bare t)
  | shorthand (s : Shorthand) {t : Target} : t.WellFormed → WellFormed (.shorthand (some s) t)
  | compare (o : Op) {t : Target} : t.WellFormed → WellFormed (.compare (some o) t)

/-- There is at least one clause, or there are two targets, and all are well formed. -/
inductive Range.WellFormed : Range → Prop
  | all {cs : List Clause} : cs ≠ [] → (∀ c ∈ cs, c.WellFormed) → WellFormed (.all cs)
  | between {l u : Target} : l.WellFormed → u.WellFormed → WellFormed (.between l u)

/-- There is at least one range, and all ranges are well formed. -/
structure Formula.WellFormed (f : Formula) : Prop where
  /-- There is at least one range. -/
  ne_nil : f.ranges ≠ []
  /-- All ranges are well formed. -/
  ranges : ∀ r ∈ f.ranges, r.WellFormed

/-! ### Equality signs before versions -/

/-- The clause without an equality sign before a version. -/
def Clause.bareEquals : Clause → Clause
  | .compare (some .eq) (.version v) => .bare (.version v)
  | c => c

/-- The range without equality signs before versions. -/
def Range.bareEquals : Range → Range
  | .all cs => .all (cs.map Clause.bareEquals)
  | r => r

/-- The formula without equality signs before versions. -/
def Formula.bareEquals (f : Formula) : Formula := ⟨f.ranges.map Range.bareEquals⟩

/-- A version means the same with an equality sign and without. -/
@[simp] theorem Clause.bounds_bareEquals (c : Clause) : c.bareEquals.bounds = c.bounds := by
  unfold bareEquals
  split <;> rfl

@[simp] theorem Clause.render_bareEquals (c : Clause) : c.bareEquals.render = c.render := by
  unfold bareEquals
  split <;> rfl

@[simp] theorem Range.bounds_bareEquals (r : Range) : r.bareEquals.bounds = r.bounds := by
  cases r with
  | all cs => simp [bareEquals, bounds, Function.comp_def]
  | _ => rfl

@[simp] theorem Range.render_bareEquals (r : Range) : r.bareEquals.render = r.render := by
  cases r with
  | all cs => simp [bareEquals, render, Function.comp_def]
  | _ => rfl

@[simp] theorem Formula.normalize_bareEquals (f : Formula) :
    f.bareEquals.normalize = f.normalize := by
  simp [bareEquals, normalize, Function.comp_def]

@[simp] theorem Formula.print_bareEquals (f : Formula) : f.bareEquals.print = f.print := by
  simp [bareEquals, print, render, Function.comp_def]

/-! ### Numbers and identifiers -/

theorem legible_natCast {n : ℕ} :
    Legible n ↔ (Nat.toDigits 10 n).length ≤ Numeral.limit := by
  simp [Legible]

/-- The numeral of a legible number is a run of digits that stands for it. -/
theorem exists_digits_of_renderNat {n : ℕ} (h : Legible n) :
    ∃ ds : Grammar.Digits, renderNat n = .ok ds.1 ∧ ds.value = n ∧
      ds.1.length ≤ Numeral.limit := by
  have hlen := legible_natCast.1 h
  have hdigits : ∀ c ∈ Nat.toDigits 10 n, c.isDigit = true := fun c hc =>
    Nat.isDigit_of_mem_toDigits (by decide) (by decide) hc
  refine ⟨⟨Nat.toDigits 10 n, Nat.toDigits_ne_nil, hdigits⟩, ?_, Nat.ofDigitChars_ten_toDigits,
    hlen⟩
  rw [renderNat, Numeral.write]
  simp only [hlen, if_true]
  rfl

theorem Legible.exists_natCast {n : ℤ} (h : Legible n) : ∃ k : ℕ, n = k ∧ Legible k := by
  obtain ⟨k, rfl⟩ := Int.eq_ofNat_of_zero_le h.1
  exact ⟨k, rfl, h⟩

theorem IsIdentifier.wellformed {s : String} (h : IsIdentifier s) :
    s.toList ≠ [] ∧ ∀ c ∈ s.toList, isIdentifierChar c = true :=
  ⟨fun hnil => h.1 (String.toList_eq_nil_iff.1 hnil), List.all_eq_true.1 h.2⟩

theorem exists_ident_of_render {i : Identifier} (h : i.WellFormed) :
    ∃ d : Grammar.Ident, i.render = .ok d.1 ∧ d.denote = i ∧
      (d.1.all Char.isDigit = true → d.1.length ≤ Numeral.limit) := by
  cases h with
  | num hn =>
    obtain ⟨k, rfl, hk⟩ := hn.exists_natCast
    obtain ⟨ds, hds, hvalue, hlen⟩ := exists_digits_of_renderNat hk
    refine ⟨⟨ds.1, ds.2.1, fun c hc => isIdentifierChar_of_isDigit (ds.2.2 c hc)⟩, hds, ?_,
      fun _ => hlen⟩
    rw [Grammar.Ident.denote, if_pos (List.all_eq_true.2 ds.2.2), ← hvalue]
    rfl
  | @alpha s hs hdigits =>
    refine ⟨⟨s.toList, hs.wellformed⟩, rfl, ?_, ?_⟩
    · rw [Grammar.Ident.denote, if_neg (Bool.eq_false_iff.1 hdigits), String.ofList_toList]
    · exact fun hall => absurd hall (Bool.eq_false_iff.1 hdigits)

/-- If a function succeeds on every element of a list, then on the list. -/
theorem mapM_eq_ok_map {ε α β γ : Type} {f : β → Except ε γ} {g : α → β} {k : α → γ} {as : List α}
    (h : ∀ a ∈ as, f (g a) = .ok (k a)) : (as.map g).mapM f = .ok (as.map k) := by
  induction as with
  | nil => rfl
  | cons a as ih =>
    obtain ⟨ha, has⟩ := List.forall_mem_cons.1 h
    rw [List.map_cons, List.mapM_cons, ha, ih has]
    rfl

/-- If what is made of each element is the text of a derivation, so it is for all of them. -/
theorem exists_mapM_eq_map {α β δ : Type} {render : α → Except Fault (List Char)}
    {text : δ → List Char} {denote : δ → β} {f : α → β} {P : δ → Prop} {as : List α}
    (h : ∀ a ∈ as, ∃ d, render a = .ok (text d) ∧ denote d = f a ∧ P d) :
    ∃ ds : List δ, as.mapM render = .ok (ds.map text) ∧ ds.map denote = as.map f ∧
      ∀ d ∈ ds, P d := by
  induction as with
  | nil => exact ⟨[], rfl, rfl, by simp⟩
  | cons a as ih =>
    obtain ⟨d, hd, hden, hP⟩ := h a List.mem_cons_self
    obtain ⟨ds, hds, hdens, hPs⟩ := ih fun a' ha' => h a' (List.mem_cons_of_mem a ha')
    refine ⟨d :: ds, ?_, ?_, List.forall_mem_cons.2 ⟨hP, hPs⟩⟩
    · rw [List.mapM_cons, hd, hds]
      rfl
    · rw [List.map_cons, List.map_cons, hden, hdens]

theorem exists_pre_of_render {is : List Identifier} (h : ∀ i ∈ is, i.WellFormed) :
    ∃ pre : Option Grammar.Idents,
      Version.renderPrerelease is = .ok (pre.elim [] fun is => '-' :: is.text) ∧
      (pre.elim [] fun is => is.1.map Grammar.Ident.denote) = is ∧
      Short (pre.elim [] fun is =>
        (is.1.map Subtype.val).filter fun i => i.all Char.isDigit) := by
  cases is with
  | nil => exact ⟨none, rfl, rfl, short_nil⟩
  | cons i is =>
    obtain ⟨ds, hds, hden, hshort⟩ :
        ∃ ds : List Grammar.Ident, (i :: is).mapM Identifier.render = .ok (ds.map Subtype.val) ∧
          ds.map Grammar.Ident.denote = (i :: is).map id ∧
          ∀ d ∈ ds, d.1.all Char.isDigit = true → d.1.length ≤ Numeral.limit :=
      exists_mapM_eq_map fun j hj => exists_ident_of_render (h j hj)
    rw [List.map_id] at hden
    have hne : ds ≠ [] := by
      rintro rfl
      cases hden
    refine ⟨some ⟨ds, hne⟩, ?_, hden, ?_⟩
    · rw [Version.renderPrerelease, hds]
      · rfl
      · exact nofun
    · intro cs hcs
      obtain ⟨hmem, hall⟩ := List.mem_filter.1 hcs
      obtain ⟨d, hd, rfl⟩ := List.mem_map.1 hmem
      exact hshort d hd hall

theorem exists_build_of_render {bs : List String} (h : ∀ s ∈ bs, IsIdentifier s) :
    ∃ build : Option Grammar.Idents,
      Version.renderBuild bs = (build.elim [] fun is => '+' :: is.text) ∧
      (build.elim [] fun is => is.1.map fun i => String.ofList i.1) = bs := by
  cases bs with
  | nil => exact ⟨none, rfl, rfl⟩
  | cons b bs =>
    have hids : ∀ i ∈ (b :: bs).map String.toList,
        i ≠ [] ∧ ∀ c ∈ i, isIdentifierChar c = true := by
      intro i hi
      obtain ⟨s, hs, rfl⟩ := List.mem_map.1 hi
      exact (h s hs).wellformed
    obtain ⟨is, his⟩ := Grammar.exists_idents ⟨by simp, hids⟩
    refine ⟨some is, ?_, ?_⟩
    · rw [Version.renderBuild, ← his]
      · rfl
      · exact nofun
    · have hmap : (is.1.map Subtype.val).map String.ofList =
          is.1.map fun i => String.ofList i.1 := by
        rw [List.map_map]
        rfl
      rw [Option.elim_some, ← hmap, his, List.map_map]
      simp

/-! ### Targets -/

/-- The written form of a version is that of three numbers and what is attached to them. -/
theorem Version.exists_derivation_of_render {v : Version} (hv : v.WellFormed) :
    ∃ d : Grammar.Target, v.render = .ok d.text ∧ d.denote = .version v ∧ Short d.numerals := by
  obtain ⟨a, ha, hav, has⟩ := exists_digits_of_renderNat hv.major
  obtain ⟨b, hb, hbv, hbs⟩ := exists_digits_of_renderNat hv.minor
  obtain ⟨c, hc, hcv, hcs⟩ := exists_digits_of_renderNat hv.patch
  obtain ⟨pre, hpre, hpred, hpres⟩ := exists_pre_of_render hv.prerelease
  obtain ⟨build, hbuild, hbuildd⟩ := exists_build_of_render hv.build
  let d : Grammar.Target :=
    { vee := none
      first := .number a
      more := [.number b, .number c]
      pre := pre
      build := build
      length_more := Nat.le_refl 2
      ordered := by simp
      attached := fun _ => ⟨rfl, by simp⟩ }
  refine ⟨d, ?_, ?_, ?_⟩
  · rw [render, ha, hb, hc, hpre, hbuild]
    simp [d, Grammar.Target.text, Grammar.Target.veeText, Grammar.Target.preText,
      Grammar.Target.buildText, Grammar.Part.text, bind, Except.bind, pure, Except.pure]
  · have hns : (d.first :: d.more).filterMap Grammar.Part.value? = [v.major, v.minor, v.patch] := by
      simp [d, hav, hbv, hcv]
    rw [Grammar.Target.denote, hns]
    exact congrArg₂ (fun pre build => Target.version ⟨v.major, v.minor, v.patch, pre, build⟩)
      hpred hbuildd
  · refine short_append.2 ⟨?_, hpres⟩
    simp [d, Short, has, hbs, hcs]

namespace Grammar

/-- The target that consists of the given parts. -/
def Target.ofParts (first : Part) (more : List Part) (hlen : more.length ≤ 2)
    (hord : (first :: more).Pairwise fun p q => q.IsNumber → p.IsNumber) : Target :=
  { vee := none
    first := first
    more := more
    pre := none
    build := none
    length_more := hlen
    ordered := hord
    attached := by simp }

/-- The wildcard that patterns are written with. -/
def Part.x : Part := .wildcard ⟨'x', .inl rfl⟩

@[simp] theorem Part.not_isNumber_x : ¬ x.IsNumber := id

@[simp] theorem Part.digits?_x : x.digits? = none := rfl

section OfParts

variable {first : Part} {more : List Part} (hlen : more.length ≤ 2)
  (hord : (first :: more).Pairwise fun p q => q.IsNumber → p.IsNumber)

@[simp] theorem Target.text_ofParts : (ofParts first more hlen hord).text =
    first.text ++ more.flatMap fun p => '.' :: p.text := by
  simp [text, veeText, preText, buildText, ofParts]

@[simp] theorem Target.numerals_ofParts : (ofParts first more hlen hord).numerals =
    (first :: more).filterMap Part.digits? := by
  simp [numerals, ofParts]

end OfParts

end Grammar

/-- A pattern is written with as many wildcards as make three parts, except `*`. -/
theorem Target.exists_derivation_of_render {t : Target} (ht : t.WellFormed) :
    ∃ d : Grammar.Target, t.render = .ok d.text ∧ d.denote = t ∧ Short d.numerals := by
  cases ht with
  | version hv => exact Version.exists_derivation_of_render hv
  | any =>
    exact ⟨.ofParts (.wildcard ⟨'*', .inr (.inr rfl)⟩) [] (Nat.zero_le 2) (by simp), rfl, rfl,
      short_nil⟩
  | major hm =>
    obtain ⟨m, rfl, hm⟩ := hm.exists_natCast
    obtain ⟨a, ha, rfl, has⟩ := exists_digits_of_renderNat hm
    have hrender : renderInt a.value = .ok a.1 := ha
    refine ⟨.ofParts (.number a) [.x, .x] (Nat.le_refl 2) (by simp), ?_, rfl, ?_⟩
    · rw [render, hrender, Grammar.Target.text_ofParts]
      rfl
    · simpa [Short] using has
  | minor hm hn =>
    obtain ⟨m, rfl, hm⟩ := hm.exists_natCast
    obtain ⟨n, rfl, hn⟩ := hn.exists_natCast
    obtain ⟨a, ha, rfl, has⟩ := exists_digits_of_renderNat hm
    obtain ⟨b, hb, rfl, hbs⟩ := exists_digits_of_renderNat hn
    have hrender : renderInt a.value = .ok a.1 := ha
    have hrender' : renderInt b.value = .ok b.1 := hb
    refine ⟨.ofParts (.number a) [.number b, .x] (Nat.le_refl 2) (by simp), ?_, rfl, ?_⟩
    · rw [render, hrender, hrender', Grammar.Target.text_ofParts]
      simp [Grammar.Part.text, Grammar.Part.x, bind, Except.bind, pure, Except.pure]
    · simp [Short, has, hbs]

/-! ### Clauses, ranges and formulas -/

/-- Pieces with a separator between them are the first piece and the separated others. -/
theorem intercalate_map_cons {α : Type} (sep : List Char) (f : α → List Char) (a : α)
    (as : List α) : sep.intercalate ((a :: as).map f) = f a ++ as.flatMap fun b => sep ++ f b := by
  induction as generalizing a with
  | nil => simp [List.intercalate]
  | cons b bs ih =>
    have hcons : sep.intercalate ((a :: b :: bs).map f) =
        f a ++ (sep ++ sep.intercalate ((b :: bs).map f)) := by
      simp [List.intercalate]
    rw [hcons, ih, List.flatMap_cons, List.append_assoc]

/-- The written form of a clause has no white space after the operator. -/
theorem Clause.exists_derivation_of_render {c : Clause} (hc : c.WellFormed) :
    ∃ d : Grammar.Clause, c.render = .ok d.text ∧ d.denote = c.bareEquals ∧
      Short d.target.numerals := by
  cases hc with
  | bare ht =>
    obtain ⟨d, hd, rfl, hshort⟩ := Target.exists_derivation_of_render ht
    exact ⟨.bare d, hd, rfl, hshort⟩
  | shorthand s ht =>
    obtain ⟨d, hd, rfl, hshort⟩ := Target.exists_derivation_of_render ht
    exact ⟨.shorthand s ⟨[], by simp⟩ d, by rw [render, hd]; rfl, rfl, hshort⟩
  | @compare o t ht =>
    obtain ⟨d, hd, hden, hshort⟩ := Target.exists_derivation_of_render ht
    -- the equality sign before a version is the only sign that is not written
    by_cases heq : o = .eq ∧ ∃ v, t = .version v
    · obtain ⟨rfl, v, rfl⟩ := heq
      exact ⟨.bare d, hd, congrArg bare hden, hshort⟩
    · have hsame : (compare (some o) t).bareEquals = .compare (some o) t := by
        unfold bareEquals
        split
        · next v h =>
          cases h
          exact absurd ⟨rfl, v, rfl⟩ heq
        · rfl
      refine ⟨.compare o ⟨[], by simp⟩ d, ?_, by rw [hsame, ← hden]; rfl, hshort⟩
      rw [render, hd]
      · rfl
      · rintro v ⟨⟩ rfl
        exact heq ⟨rfl, v, rfl⟩

/-- One blank. -/
def Grammar.Gap.single : Grammar.Gap := ⟨[' '], by decide, List.forall_mem_singleton.2 rfl⟩

theorem Range.exists_derivation_of_render {r : Range} (hr : r.WellFormed) :
    ∃ d : Grammar.Range, r.render = .ok d.text ∧ d.denote = r.bareEquals ∧
      ∀ t ∈ d.targets, Short t.numerals := by
  cases hr with
  | @all cs hne hcs =>
    obtain ⟨ds, hds, hden, hshort⟩ := exists_mapM_eq_map fun c hc =>
      Clause.exists_derivation_of_render (hcs c hc)
    cases ds with
    | nil => exact absurd (List.map_eq_nil_iff.1 hden.symm) hne
    | cons d ds =>
      refine ⟨.all d (ds.map fun e => (Grammar.Gap.single, e)), ?_, ?_, ?_⟩
      · rw [render, hds]
        simp only [bind, Except.bind, pure, Except.pure, intercalate_map_cons, Grammar.Range.text,
          List.flatMap_map]
        rfl
      · rw [bareEquals, ← hden, Grammar.Range.denote, List.map_map]
        rfl
      · rw [Grammar.Range.targets, List.map_map]
        exact List.forall_mem_cons.2 ⟨hshort d List.mem_cons_self,
          List.forall_mem_map.2 fun e he => hshort e (List.mem_cons_of_mem d he)⟩
  | @between l u hl hu =>
    obtain ⟨d, hd, hden, hshort⟩ := Target.exists_derivation_of_render hl
    obtain ⟨e, he, hene, heshort⟩ := Target.exists_derivation_of_render hu
    refine ⟨.between d Grammar.Gap.single Grammar.Gap.single e, ?_, ?_, ?_⟩
    · rw [render, hd, he]
      simp [Grammar.Range.text, Grammar.Gap.single, bind, Except.bind, pure, Except.pure]
    · rw [Grammar.Range.denote, hden, hene]
      rfl
    · simp [Grammar.Range.targets, hshort, heshort]

/-- **The written form of a well-formed formula has a derivation**, which denotes the formula
without equality signs before versions. -/
theorem Formula.exists_derivation_of_render {f : Formula} (hf : f.WellFormed) :
    ∃ d : Grammar.Formula, f.render = .ok d.text ∧ d.denote = f.bareEquals ∧
      Short d.numerals := by
  obtain ⟨ds, hds, hden, hshort⟩ := exists_mapM_eq_map fun r hr =>
    Range.exists_derivation_of_render (hf.ranges r hr)
  cases ds with
  | nil => exact absurd (List.map_eq_nil_iff.1 hden.symm) hf.ne_nil
  | cons d ds =>
    -- single blanks around the bars, and none at the ends of the text
    let blank : Grammar.Blanks := ⟨[' '], List.forall_mem_singleton.2 rfl⟩
    refine ⟨.ranges ⟨[], by simp⟩ d (ds.map fun e => (blank, blank, e)) ⟨[], by simp⟩, ?_, ?_, ?_⟩
    · rw [render, hds]
      simp only [bind, Except.bind, pure, Except.pure, intercalate_map_cons, Grammar.Formula.text,
        List.flatMap_map, List.append_nil]
      rfl
    · rw [bareEquals, ← hden, Grammar.Formula.denote, List.map_map]
      rfl
    · refine short_flatMap.2 ?_
      rw [Grammar.Formula.targets, List.flatMap_map]
      refine List.forall_mem_append.2 ⟨hshort d List.mem_cons_self, ?_⟩
      rw [List.forall_mem_flatMap]
      exact fun e he => hshort e (List.mem_cons_of_mem d he)

/-! ### Reading back -/

theorem Target.WellFormed.proper {t : Target} (h : t.WellFormed) : t.Proper := by
  cases h with
  | version hv => exact .version _
  | any => exact .any
  | major hm =>
    obtain ⟨m, rfl, -⟩ := hm.exists_natCast
    exact .major m
  | minor hm hn =>
    obtain ⟨m, rfl, -⟩ := hm.exists_natCast
    obtain ⟨n, rfl, -⟩ := hn.exists_natCast
    exact .minor m n

theorem Range.WellFormed.proper {r : Range} (h : r.WellFormed) : r.Proper := by
  cases h with
  | all _ hcs =>
    refine .all fun c hc => ?_
    cases hcs c hc with
    | bare ht => exact .bare ht.proper
    | shorthand s ht => exact .shorthand s ht.proper
    | compare o ht => exact .compare o ht.proper
  | between hl hu => exact .between hl.proper hu.proper

theorem Formula.WellFormed.proper {f : Formula} (h : f.WellFormed) : f.Proper :=
  fun r hr => (h.ranges r hr).proper

/-- **What is written reads back.**  The written form of a well-formed formula is read as the
formula without equality signs before versions, field for field, build metadata included.  The
two have the same bounds and the same written form. -/
theorem Formula.parse_print {f : Formula} (hf : f.WellFormed) :
    ∃ text, f.print = .ok text ∧ Formula.parse text = .ok f.bareEquals ∧
      (∃ d, f.normalize = .ok d ∧ f.bareEquals.normalize = .ok d) ∧
      f.bareEquals.print = .ok text := by
  obtain ⟨d, hrender, hden, hshort⟩ := exists_derivation_of_render hf
  have hprint : f.print = .ok (String.ofList d.text) := by
    rw [print, hrender]
    rfl
  obtain ⟨dnf, hdnf, -⟩ := denotes_normalize hf.proper
  refine ⟨String.ofList d.text, hprint, ?_, ⟨dnf, hdnf, ?_⟩, ?_⟩
  · rw [parse_eq_ok (String.toList_ofList).symm hshort, hden]
  · rw [normalize_bareEquals, hdnf]
  · rw [print_bareEquals, hprint]

/-- The formula `=1.2.3-a-.7+b-1 >* || ^0.x.x || 1.0.0 - 2.3.x`, with an equality sign that is
not written. -/
def Formula.equalsOrBetween : Formula :=
  ⟨[.all [.compare (some .eq) (.version ⟨1, 2, 3, [.alpha "a-", .num 7], ["b-1"]⟩),
      .compare (some .gt) .any],
    .all [.shorthand (some .caret) (.major 0)],
    .between (.version ⟨1, 0, 0, [], []⟩) (.minor 2 3)]⟩

theorem Formula.wellFormed_equalsOrBetween : equalsOrBetween.WellFormed := by
  have hversion : Version.WellFormed ⟨1, 2, 3, [.alpha "a-", .num 7], ["b-1"]⟩ := by
    refine ⟨by decide, by decide, by decide, ?_, by decide⟩
    rintro i hi
    simp only [List.mem_cons, List.not_mem_nil, or_false] at hi
    rcases hi with rfl | rfl
    · exact .alpha (by decide) (by decide)
    · exact .num (by decide)
  have hrelease : Version.WellFormed ⟨1, 0, 0, [], []⟩ :=
    ⟨by decide, by decide, by decide, nofun, nofun⟩
  refine ⟨by decide, ?_⟩
  rintro r hr
  simp only [equalsOrBetween, List.mem_cons, List.not_mem_nil, or_false] at hr
  rcases hr with rfl | rfl | rfl
  · refine .all (by decide) ?_
    rintro c hc
    simp only [List.mem_cons, List.not_mem_nil, or_false] at hc
    rcases hc with rfl | rfl
    · exact .compare .eq (.version hversion)
    · exact .compare .gt .any
  · refine .all (by decide) ?_
    rintro c hc
    obtain rfl := List.mem_singleton.1 hc
    exact .shorthand .caret (.major (by decide))
  · exact .between (.version hrelease) (.minor (by decide) (by decide))

theorem Formula.parse_print_equalsOrBetween : equalsOrBetween.WellFormed ∧
    ∃ text, equalsOrBetween.print = .ok text ∧
      Formula.parse text = .ok equalsOrBetween.bareEquals ∧
      (∃ d, equalsOrBetween.normalize = .ok d ∧ equalsOrBetween.bareEquals.normalize = .ok d) ∧
      equalsOrBetween.bareEquals.print = .ok text :=
  ⟨wellFormed_equalsOrBetween, parse_print wellFormed_equalsOrBetween⟩

end SemverRange
