import SemverRange.Proofs.Cache.Ownership
import SemverRange.Proofs.Dnf.Bounds
import SemverRange.Proofs.Formula.WellFormed

/-!
# A cache changes nothing

Whatever happens to a cache, a call ends with what its text compiles to, unless the compilation
that it made or waited for was interrupted.  So a version that is tried on the outcome of a call
satisfies it if and only if it satisfies the formula, and what is wrong with the formula is
reported before what is wrong with the version.

For the last part it matters that the bounds of a formula that was read can always be computed:
a call computes them before it looks at the version, and whoever reads both texts does so after.

A call of which nothing else takes a step in between does end, unless it finds an entry of which
the compilation goes on: then whoever works on it would have to take a step.

## Main definitions

* `Outcome.Answers` — versions are tried on the outcome as on the text.
* `Session.Awaits` — a call for the text would have to wait.

## Main results

* `satisfies_eq_compile` — a version is tried on a text as on what the text compiles to.
* `Session.Coherent.get_cases` — the outcome of a lone call, and when there is none.
* `SharedSession.transparent` — **a call ends with what its text compiles to**.
-/

namespace SemverRange

variable {stops : Compilation → Bool}

/-! ### Trying a version -/

/-- The bounds of a formula that is read can be computed. -/
theorem Formula.exists_normalize_of_parse {text : String} {f : Formula}
    (h : Formula.parse text = .ok f) : ∃ d, f.normalize = .ok d := by
  obtain ⟨d, hd, -⟩ := Formula.denotes_normalize (Formula.wellFormed_of_parse h).proper
  exact ⟨d, hd⟩

/-- It makes no difference whether the bounds are computed before the version is known or
after. -/
theorem compile_bind_eq (text : String) (version : Except Fault Version) :
    (do let c ← compile text; let v ← version; c.dnf.satisfies v) =
      (do let f ← Formula.parse text; let v ← version; f.satisfies v) := by
  rw [compile]
  cases hf : Formula.parse text with
  | error e => rfl
  | ok f =>
    obtain ⟨d, hd⟩ := Formula.exists_normalize_of_parse hf
    cases version with
    | error e => simp [hd, bind, Except.bind, pure, Except.pure]
    | ok v => simp [hd, Formula.satisfies, bind, Except.bind, pure, Except.pure]

/-- A version is tried on a text as on what the text compiles to. -/
theorem satisfies_eq_compile (text version : String) :
    satisfies text version = (do let c ← compile text; c.satisfiedByText version) :=
  (compile_bind_eq text (Version.parse version)).symm

theorem Outcome.satisfies_outcomeOf (text : String) (version : Except Fault Version) :
    (outcomeOf text).satisfies version =
      (do let c ← compile text; let v ← version; c.dnf.satisfies v).mapError .ofFormula := by
  rw [satisfies, outcomeOf]
  cases compile text with
  | error e => rfl
  | ok c => rfl

/-- Trying a version on the outcome is the same as trying it on the compiled text, and the same as
reading the text for that version alone. -/
structure Outcome.Answers (o : Outcome) (text : String) : Prop where
  /-- The version is given as a text and tried on what the text compiles to. -/
  compiled : ∀ version, o.satisfies (Version.parse version) =
    (do let c ← compile text; c.satisfiedByText version).mapError .ofFormula
  /-- The version is given as a text. -/
  texts : ∀ version, o.satisfies (Version.parse version) =
    (SemverRange.satisfies text version).mapError .ofFormula
  /-- The version is given as such and tried on what the text compiles to. -/
  compiledVersion : ∀ v, o.satisfies (.ok v) =
    (do let c ← compile text; c.dnf.satisfies v).mapError .ofFormula
  /-- The version is given as such. -/
  version : ∀ v, o.satisfies (.ok v) =
    (do let f ← Formula.parse text; f.satisfies v).mapError .ofFormula
  /-- What is wrong with the formula is reported, whatever is wrong with the version. -/
  formulaFirst : ∀ e, Formula.parse text = .error e →
    ∀ version, o.satisfies version = .error (.ofFormula e)

theorem Outcome.answers_outcomeOf (text : String) : (outcomeOf text).Answers text where
  compiled version := satisfies_outcomeOf text (Version.parse version)
  texts version := by
    rw [satisfies_eq_compile]
    exact satisfies_outcomeOf text (Version.parse version)
  compiledVersion v := satisfies_outcomeOf text (.ok v)
  version v := by
    rw [satisfies_outcomeOf, compile_bind_eq]
    rfl
  formulaFirst e he version := by
    rw [satisfies_outcomeOf, compile, he]
    rfl

/-! ### Calls -/

namespace Session

variable {s : Session} {text : String}

/-- A call for the text would have to wait: the cache is on, and the compilation of an entry of the
text goes on. -/
def Awaits (s : Session) (text : String) : Prop :=
  s.cache.enabled = true ∧ ∃ e ∈ s.cache.entries, e.text = text ∧ s.Pending e.job

/-- Nobody waits once the compilations of the text have their outcomes. -/
theorem Coherent.not_awaits (h : s.Coherent stops)
    (hsettled : ∀ n, s.text? n = some text → ¬s.Pending n) : ¬s.Awaits text := by
  rintro ⟨-, e, he, rfl, hpending⟩
  exact hsettled e.job (h.entries e he) hpending

/-- A lone call waits for ever if the compilation of its text goes on, and else it ends with what
the text compiles to. -/
theorem Coherent.get_cases (h : s.Coherent stops) (text : String) :
    s.Awaits text ∧ (s.get text).1 = none ∨
      ¬s.Awaits text ∧ (s.get text).1 = some (outcomeOf text) := by
  rw [get, enter]
  cases hon : s.cache.enabled with
  | false =>
    refine .inr ⟨fun hawaits => ?_, rfl⟩
    rw [Awaits, hon] at hawaits
    exact Bool.false_ne_true hawaits.1
  | true =>
    rw [if_pos rfl]
    by_cases hmem : text ∈ s.cache.keys
    · obtain ⟨e, he, rfl⟩ := List.mem_map.1 hmem
      rw [h.seek_of_mem he]
      cases ho : s.outcome? e.job with
      | none =>
        have hpending : s.Pending e.job := ⟨lt_of_text?_eq_some (h.entries e he), ho⟩
        exact .inl ⟨⟨hon, e, he, rfl, hpending⟩, ho⟩
      | some o =>
        obtain ⟨c, hc, rfl⟩ := h.compile_eq_ok he ho
        refine .inr ⟨fun hawaits => ?_, ?_⟩
        · -- no other entry has this text
          obtain ⟨-, e', he', htext, hpending⟩ := hawaits
          rw [List.inj_on_of_nodup_map h.keys he' he htext, Pending, ho] at hpending
          cases hpending.2
        · rw [outcomeOf, hc]
          exact ho
    · have hmiss := Cache.find?_eq_none_iff.2 hmem
      rw [(seek_eq_start_iff h.size).2 ⟨hmiss, rfl, rfl⟩]
      refine .inr ⟨fun hawaits => ?_, rfl⟩
      obtain ⟨-, e, he, rfl, -⟩ := hawaits
      exact hmem (List.mem_map_of_mem he)

/-- A lone call that does not wait for ever ends with what its text compiles to. -/
theorem Coherent.get_eq (h : s.Coherent stops) {o : Outcome} (hget : (s.get text).1 = some o) :
    o = outcomeOf text := by
  rcases h.get_cases text with ⟨-, hnone⟩ | ⟨-, hsome⟩
  · rw [hnone] at hget
    cases hget
  · rw [hsome] at hget
    exact (Option.some.inj hget).symm

theorem Coherent.get_eq_none_iff (h : s.Coherent stops) :
    (s.get text).1 = none ↔ s.Awaits text := by
  rcases h.get_cases text with ⟨hawaits, hnone⟩ | ⟨hnot, hsome⟩
  · exact iff_of_true hnone hawaits
  · exact iff_of_false (hsome ▸ Option.some_ne_none _) hnot

/-- A version is tried on what the call ends with. -/
theorem satisfies_of_get {o : Outcome} (hget : (s.get text).1 = some o)
    (version : Except SemverRange.Fault Version) :
    (s.satisfies text version).1 = some (o.satisfies version) := by
  rw [satisfies]
  exact congrArg (Option.map (Outcome.satisfies · version)) hget

end Session

/-- **A cache changes nothing.**  After any steps, a call that ended had compiled its text itself,
or waited for a compilation of it; and it ended with what the text compiles to, unless that
compilation was interrupted.  Versions are tried on such an outcome as on the text.

The same holds for a call that is made when the steps have been taken, and of which nothing else
takes a step in between.  It does end unless the cache is on and the compilation of an entry of its
text goes on, and so it does whenever the compilations of its text have their outcomes, or the
cache is off. -/
theorem SharedSession.transparent {size : Cache.Size} {enabled : Bool} {cache : Cache}
    {es : List Event} {w : SharedSession} (hnew : Cache.new? size enabled = .ok cache)
    (hrun : Run stops (ofCache cache) es w) :
    (∀ (i : ℕ) text k o, w.calls[i]? = some ⟨text, .ended k o⟩ →
      (k = .own i ∨
        ∃ n, k = .shared n ∧ w.session.text? n = some text ∧ w.session.outcome? n = some o) ∧
      o = (if stops k then .error .interrupted else outcomeOf text) ∧
      (stops k = false → o.Answers text)) ∧
    (∀ text o, (w.session.get text).1 = some o → o = outcomeOf text) ∧
    (∀ text version r, (w.session.satisfies text (Version.parse version)).1 = some r →
      r = (satisfies text version).mapError .ofFormula) ∧
    (∀ text, (w.session.get text).1 = none ↔ w.session.Awaits text) ∧
    (∀ text, ¬w.session.Awaits text →
      (w.session.get text).1 = some (outcomeOf text) ∧
      (∀ version, (w.session.satisfies text (Version.parse version)).1 =
        some ((satisfies text version).mapError .ofFormula)) ∧
      ∀ v, (w.session.satisfies text (.ok v)).1 =
        some ((do let f ← Formula.parse text; f.satisfies v).mapError .ofFormula)) ∧
    ∀ text, (w.session.cache.enabled = false ∨
      ∀ n, w.session.text? n = some text → ¬w.session.Pending n) → ¬w.session.Awaits text := by
  have h : w.Inv stops := (Inv.of_new? hnew).run hrun
  refine ⟨?_, ?_, ?_, ?_, ?_, ?_⟩
  · intro i text k o hcall
    have hfits := h.fits i text _ hcall
    have ho : o = k.outcome stops text := by
      cases k with
      | own j => exact hfits.2
      | shared n => exact h.coherent.outcomes n text o hfits.1 hfits.2
    refine ⟨?_, ho, ?_⟩
    · cases k with
      | own j => exact .inl (congrArg Compilation.own hfits.1)
      | shared n => exact .inr ⟨n, rfl, hfits⟩
    · intro hgo
      rw [ho, Compilation.outcome, hgo]
      exact Outcome.answers_outcomeOf text
  · intro text o hget
    exact h.coherent.get_eq hget
  · intro text version r hr
    obtain ⟨o, ho, rfl⟩ := Option.map_eq_some_iff.1 hr
    rw [h.coherent.get_eq ho]
    exact (Outcome.answers_outcomeOf text).texts version
  · intro text
    exact h.coherent.get_eq_none_iff
  · intro text hnot
    have hget : (w.session.get text).1 = some (outcomeOf text) :=
      ((h.coherent.get_cases text).resolve_left fun hawaits => hnot hawaits.1).2
    have hanswers := Outcome.answers_outcomeOf text
    refine ⟨hget, fun version => ?_, fun v => ?_⟩
    · rw [Session.satisfies_of_get hget, hanswers.texts]
    · rw [Session.satisfies_of_get hget, hanswers.version]
  · rintro text (hoff | hsettled)
    · intro hawaits
      rw [Session.Awaits, hoff] at hawaits
      exact Bool.false_ne_true hawaits.1
    · exact h.coherent.not_awaits hsettled

/-- Two calls for the same text, of which the first is interrupted.  When the second one has ended,
nobody has to wait for the text, even though the compilation of another one goes on. -/
theorem SharedSession.transparent_displaced :
    Cache.new? (.whole 1) true = .ok forOne ∧
    ∃ es w o, Run (· = .shared 0) (ofCache forOne) es w ∧
      w.calls[0]? = some ⟨"1.x", .ended (.shared 0) (.error .interrupted)⟩ ∧
      w.calls[2]? = some ⟨"1.x", .ended (.shared 2) o⟩ ∧ o = outcomeOf "1.x" ∧
      o.satisfies (Version.parse "1.4.0") = .ok true ∧ w.session.Pending 1 ∧
      (w.session.get "1.x").1 = some (outcomeOf "1.x") ∧
      (w.session.satisfies "1.x" (Version.parse "1.4.0")).1 = some (.ok true) := by
  have hnew : Cache.new? (.whole 1) true = .ok forOne := rfl
  obtain ⟨c, hc⟩ : ∃ c, compile "1.x" = .ok c := by
    have hok : (compile "1.x").isOk = true := by decide +kernel
    cases hc : compile "1.x" with
    | ok c => exact ⟨c, rfl⟩
    | error e =>
      rw [hc] at hok
      cases hok
  have hrun : Run (· = .shared 0) (ofCache forOne) (displacing ++ [.compiled 0] ++ [.release 0] ++
      [.deliver 0] ++ [.compiled 2] ++ [.deliver 2]) _ :=
    .snoc (.snoc (.snoc (.snoc run_displacedFailing (.release rfl)) (.deliver rfl))
      (.compileOk rfl (Compilation.outcome_eq_ok_iff.2 ⟨rfl, hc⟩))) (.deliver rfl)
  obtain ⟨hended, -, -, -, hlone, hfree⟩ := transparent hnew hrun
  obtain ⟨-, ho, hanswers⟩ := hended 2 "1.x" (.shared 2) (.ok c) rfl
  have hsatisfies : satisfies "1.x" "1.4.0" = .ok true := by decide +kernel
  have hidle := hfree "1.x" <| .inr <| by
    rintro n htext ⟨-, hnone⟩
    match n with
    | 0 => cases hnone
    | 1 => exact absurd (Option.some.inj htext) (by decide)
    | 2 => cases hnone
    | n + 3 => cases htext
  obtain ⟨hget, htexts, -⟩ := hlone "1.x" hidle
  refine ⟨hnew, _, _, _, hrun, rfl, rfl, ho, ?_, ⟨Nat.one_lt_succ_succ 1, rfl⟩, hget, ?_⟩
  · rw [(hanswers rfl).texts, hsatisfies]
    rfl
  · rw [htexts, hsatisfies]
    rfl

end SemverRange
