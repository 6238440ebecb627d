import SemverRange.Proofs.Cache.Coherence

/-!
# Who brings a compilation to its end

Whatever calls are made on a session, and in whatever order they take their steps, every
compilation without an outcome is one that exactly one call has yet to bring to its end.  So
nobody waits for a compilation that nobody works on, and nothing of that kind is left in the
cache; and what is found in the cache with an outcome is a success.

The invariant has two parts that are proved step by step: each call fits what is known of the
session, which only grows, and the calls at work are in bijection with the compilations that go
on, which changes only when a compilation starts and when its outcome is made known.

## Main definitions

* `Phase.Fits` — what a call knows of the session.
* `SharedSession.Owned`, `SharedSession.Inv` — the invariant.

## Main results

* `SharedSession.Inv.step`, `SharedSession.Inv.run` — the invariant is preserved by all steps.
* `SharedSession.no_orphans` — **no entry and no call is left with a compilation that nobody
  brings to its end, and no failure is left in the cache**.
-/

namespace SemverRange

open Session

/-! ### What a call knows -/

/-- What the call `i` for the text knows of the session, in each phase.  That a compilation goes
on is not part of it, because only one call may rely on that; `SharedSession.Owned` says which. -/
def Phase.Fits (stops : Compilation → Bool) (s : Session) (i : ℕ) (text : String) : Phase → Prop
  | arriving => True
  | compiling (.own j) => j = i
  | compiling (.shared n) => s.text? n = some text
  | failing n f => s.text? n = some text ∧ Compilation.outcome stops (.shared n) text = .error f
  | delivering n o =>
    s.text? n = some text ∧ o = Compilation.outcome stops (.shared n) text ∧
      ∀ f, o = .error f → ∀ e ∈ s.cache.entries, e.job ≠ n
  | waiting n => s.text? n = some text
  | ended (.own j) o => j = i ∧ o = Compilation.outcome stops (.own j) text
  | ended (.shared n) o => s.text? n = some text ∧ s.outcome? n = some o

variable {stops : Compilation → Bool}

/-- What a call knows does not become false. -/
theorem Phase.Fits.mono {s s' : Session} (h : s.Grows s') {i : ℕ} {text : String} {phase : Phase}
    (hphase : phase.Fits stops s i text) : phase.Fits stops s' i text := by
  cases phase with
  | arriving => trivial
  | compiling k =>
    cases k with
    | own j => exact hphase
    | shared n => exact h.text n text hphase
  | failing n f => exact hphase.imp_left (h.text n text)
  | delivering n o =>
    obtain ⟨htext, ho, hentries⟩ := hphase
    refine ⟨h.text n text htext, ho, fun f hf e he => ?_⟩
    -- a new entry for the same text is one of another compilation
    rcases h.entries e he with hold | hnew
    · exact hentries f hf e hold
    · exact Nat.ne_of_gt (Nat.lt_of_lt_of_le (lt_of_text?_eq_some htext) hnew)
  | waiting n => exact h.text n text hphase
  | ended k o =>
    cases k with
    | own j => exact hphase
    | shared n => exact hphase.imp (h.text n text) (h.outcome n o)

namespace SharedSession

variable {w w' : SharedSession} {s : Session} {i n : ℕ} {text : String} {phase phase' : Phase}

/-- A call after one was made. -/
theorem eq_or_of_call_concat {c c' : Call} (h : (w.calls ++ [c])[i]? = some c') :
    i = w.calls.length ∧ c' = c ∨ w.calls[i]? = some c' := by
  rw [getElem?_concat] at h
  split at h
  · rename_i hi
    exact .inl ⟨hi, (Option.some.inj h).symm⟩
  · exact .inr h

/-- A call after one took a step. -/
theorem eq_or_of_call_advance {j : ℕ} {c : Call}
    (h : (w.advance s i text phase).calls[j]? = some c) :
    j = i ∧ c = ⟨text, phase⟩ ∨ j ≠ i ∧ w.calls[j]? = some c := by
  rw [SharedSession.advance, List.getElem?_set] at h
  split at h
  · rename_i hi
    split at h
    · exact .inl ⟨hi.symm, (Option.some.inj h).symm⟩
    · cases h
  · rename_i hi
    exact .inr ⟨Ne.symm hi, h⟩

/-- Every call fits what is known of the session. -/
def Fits (stops : Compilation → Bool) (w : SharedSession) : Prop :=
  ∀ (i : ℕ) text phase, w.calls[i]? = some ⟨text, phase⟩ → phase.Fits stops w.session i text

/-- A call is made. -/
theorem Fits.concat (h : w.Fits stops) (hphase : phase.Fits stops w.session w.calls.length text) :
    Fits stops { w with calls := w.calls ++ [⟨text, phase⟩] } := by
  intro i text' phase' hcall
  rcases eq_or_of_call_concat hcall with ⟨rfl, hc⟩ | hold
  · cases hc
    exact hphase
  · exact h i text' phase' hold

/-- A call takes a step. -/
theorem Fits.advance (h : w.Fits stops) (hgrows : w.session.Grows s)
    (hphase : phase.Fits stops s i text) : Fits stops (w.advance s i text phase) := by
  intro j text' phase' hcall
  rcases eq_or_of_call_advance hcall with ⟨rfl, hc⟩ | ⟨-, hold⟩
  · cases hc
    exact hphase
  · exact (h j text' phase' hold).mono hgrows

/-- The session changes, but no call takes a step. -/
theorem Fits.of_grows (h : w.Fits stops) (hgrows : w.session.Grows s) :
    Fits stops { w with session := s } :=
  fun i text phase hcall => (h i text phase hcall).mono hgrows

/-! ### Who works on what -/

theorem job?_concat (hphase : phase.job? = none) :
    ({ w with calls := w.calls ++ [⟨text, phase⟩] } : SharedSession).job? = w.job? := by
  funext i
  rw [job?, job?, getElem?_concat]
  split
  · rename_i hi
    rw [hi, List.getElem?_eq_none (Nat.le_refl _)]
    exact hphase
  · rfl

theorem job?_eq (hcall : w.calls[i]? = some ⟨text, phase⟩) : w.job? i = phase.job? := by
  rw [job?, hcall]
  rfl

theorem job?_advance (hcall : w.calls[i]? = some ⟨text, phase⟩) :
    (w.advance s i text phase').job? = Function.update w.job? i phase'.job? := by
  funext i'
  have hlt := (List.getElem?_eq_some_iff.1 hcall).1
  rw [job?, advance, List.getElem?_set, Function.update_apply]
  by_cases hi : i = i'
  · rw [if_pos hi, if_pos (hi ▸ hlt), if_pos hi.symm]
    rfl
  · rw [if_neg hi, if_neg (Ne.symm hi)]
    rfl

/-- A step in which the call goes on with the same compilation, or still has none. -/
theorem job?_advance_of_eq (hcall : w.calls[i]? = some ⟨text, phase⟩)
    (hphase : phase'.job? = phase.job?) : (w.advance s i text phase').job? = w.job? := by
  rw [job?_advance hcall, hphase, ← job?_eq hcall, Function.update_eq_self]

/-- The calls at work are in bijection with the compilations that go on. -/
structure Owned (w : SharedSession) : Prop where
  /-- Whoever works on a compilation works on one that goes on. -/
  pending : ∀ i n, w.WorksOn i n → w.session.Pending n
  /-- Exactly one call works on a compilation that goes on. -/
  owner : ∀ n, w.session.Pending n → ∃! i, w.WorksOn i n

/-- Nobody begins and nobody ends. -/
theorem Owned.congr (h : w.Owned) (hjob : w'.job? = w.job?)
    (hpending : ∀ n, w'.session.Pending n ↔ w.session.Pending n) : w'.Owned := by
  refine ⟨fun i n hi => ?_, fun n hn => ?_⟩
  · rw [WorksOn, hjob] at hi
    exact (hpending n).2 (h.pending i n hi)
  · simp only [WorksOn, hjob]
    exact h.owner n ((hpending n).1 hn)

/-- A call that worked on nothing starts a compilation. -/
theorem Owned.start (h : w.Owned) (hi : w.job? i = none) (hn : ¬ w.session.Pending n)
    (hjob : w'.job? = Function.update w.job? i (some n))
    (hpending : ∀ m, w'.session.Pending m ↔ m = n ∨ w.session.Pending m) : w'.Owned := by
  have hworks (i' m : ℕ) : w'.WorksOn i' m ↔ i' = i ∧ m = n ∨ w.WorksOn i' m := by
    rw [WorksOn, WorksOn, hjob, Function.update_apply]
    split
    · rename_i hi'
      simp [hi', hi, eq_comm]
    · rename_i hi'
      simp [hi']
  refine ⟨fun i' m hi' => ?_, fun m hm => ?_⟩
  · exact (hpending m).2 (((hworks i' m).1 hi').imp And.right (h.pending i' m))
  · rcases (hpending m).1 hm with rfl | hold
    · refine ⟨i, (hworks i m).2 (.inl ⟨rfl, rfl⟩), fun i' hi' => ?_⟩
      exact ((hworks i' m).1 hi').elim And.left fun hw => absurd (h.pending i' m hw) hn
    · obtain ⟨i₀, hi₀, hunique⟩ := h.owner m hold
      refine ⟨i₀, (hworks i₀ m).2 (.inr hi₀), fun i' hi' => ?_⟩
      refine ((hworks i' m).1 hi').elim (fun hw => ?_) (hunique i')
      rw [hw.2] at hold
      exact absurd hold hn

/-- The call that works on a compilation brings it to its end. -/
theorem Owned.finish (h : w.Owned) (hi : w.WorksOn i n)
    (hjob : w'.job? = Function.update w.job? i none)
    (hpending : ∀ m, w'.session.Pending m ↔ m ≠ n ∧ w.session.Pending m) : w'.Owned := by
  have hworks (i' m : ℕ) : w'.WorksOn i' m ↔ i' ≠ i ∧ w.WorksOn i' m := by
    rw [WorksOn, WorksOn, hjob, Function.update_apply]
    split
    · rename_i hi'
      simp [hi']
    · rename_i hi'
      simp [hi']
  refine ⟨fun i' m hi' => ?_, fun m hm => ?_⟩
  · obtain ⟨hne, hw⟩ := (hworks i' m).1 hi'
    refine (hpending m).2 ⟨?_, h.pending i' m hw⟩
    rintro rfl
    exact hne ((h.owner m (h.pending i' m hw)).unique hw hi)
  · obtain ⟨hne, hold⟩ := (hpending m).1 hm
    obtain ⟨i₀, hi₀, hunique⟩ := h.owner m hold
    refine ⟨i₀, (hworks i₀ m).2 ⟨?_, hi₀⟩, fun i' hi' => hunique i' ((hworks i' m).1 hi').2⟩
    rintro rfl
    exact hne (Option.some.inj (hi₀.symm.trans hi))

/-! ### The invariant -/

/-- What holds after any steps. -/
structure Inv (stops : Compilation → Bool) (w : SharedSession) : Prop where
  /-- The entries and the compilations fit together. -/
  coherent : w.session.Coherent stops
  /-- Every call fits what is known of the session. -/
  fits : w.Fits stops
  /-- The calls at work are in bijection with the compilations that go on. -/
  owned : w.Owned

/-- The invariant holds before the first call. -/
theorem Inv.of_new? {size : Cache.Size} {enabled : Bool} {cache : Cache}
    (h : Cache.new? size enabled = .ok cache) : (ofCache cache).Inv stops :=
  ⟨.of_new? h, nofun, nofun, fun _ hn => absurd hn.1 (Nat.not_lt_zero _)⟩

/-- The cache changes otherwise than by a call, and gets no new entry. -/
theorem Inv.of_cache (h : w.Inv stops) {f : Cache → Cache}
    (hcoherent : (w.session.mapCache f).Coherent stops)
    (hentries : ∀ e ∈ (f w.session.cache).entries, e ∈ w.session.cache.entries) :
    Inv stops { w with session := w.session.mapCache f } :=
  ⟨hcoherent, h.fits.of_grows (.of_cache hentries), h.owned.congr rfl fun _ => .rfl⟩

/-- The invariant is preserved by every step. -/
theorem Inv.step {e : Event} (h : w.Inv stops) (hstep : Step stops w e w') : w'.Inv stops := by
  cases hstep with
  | callOn text on =>
    exact ⟨h.coherent, h.fits.concat trivial, h.owned.congr (job?_concat rfl) fun _ => .rfl⟩
  | callOff text off =>
    exact ⟨h.coherent, h.fits.concat rfl, h.owned.congr (job?_concat rfl) fun _ => .rfl⟩
  | join is_call found =>
    obtain ⟨e, he, rfl, rfl, rfl⟩ := exists_of_seek_eq_join found
    exact ⟨h.coherent.touch he, h.fits.advance (.touch he) (h.coherent.entries e he),
      h.owned.congr (job?_advance_of_eq is_call rfl) fun _ => .rfl⟩
  | start is_call found =>
    obtain ⟨hmiss, rfl, rfl⟩ := (seek_eq_start_iff h.coherent.size).1 found
    -- the number of the new compilation is not in use, so nobody works on it yet
    rw [h.coherent.misses]
    refine ⟨h.coherent.start hmiss, h.fits.advance (.start h.coherent.misses) ?_,
      h.owned.start (job?_eq is_call) (fun hn => Nat.lt_irrefl _ hn.1) (job?_advance is_call)
        fun m => pending_snocJob_iff _⟩
    rw [Phase.Fits, text?_snocJob, if_pos rfl]
  | compileOwn is_call =>
    exact ⟨h.coherent, h.fits.advance (.refl _) ⟨h.fits _ _ _ is_call, rfl⟩,
      h.owned.congr (job?_advance_of_eq is_call rfl) fun _ => .rfl⟩
  | compileOk is_call ok =>
    exact ⟨h.coherent, h.fits.advance (.refl _) ⟨h.fits _ _ _ is_call, ok.symm, nofun⟩,
      h.owned.congr (job?_advance_of_eq is_call rfl) fun _ => .rfl⟩
  | compileError is_call error =>
    exact ⟨h.coherent, h.fits.advance (.refl _) ⟨h.fits _ _ _ is_call, error⟩,
      h.owned.congr (job?_advance_of_eq is_call rfl) fun _ => .rfl⟩
  | @release i n text f is_call =>
    obtain ⟨htext, hf⟩ := h.fits _ _ _ is_call
    refine ⟨h.coherent.release text n, h.fits.advance (.release text n) ⟨htext, hf.symm, ?_⟩,
      h.owned.congr (job?_advance_of_eq is_call rfl) fun _ => .rfl⟩
    intro f _ e he
    -- no entry of the failed compilation is left, even if its text has one again
    rw [h.coherent.entries_release htext] at he
    simpa using List.of_mem_filter he
  | deliver is_call =>
    obtain ⟨htext, ho, herror⟩ := h.fits _ _ _ is_call
    -- the compilation had no outcome before, because this call works on it
    have hworks := job?_eq is_call
    exact ⟨h.coherent.deliver htext ho herror,
      h.fits.advance (.deliver (h.owned.pending _ _ hworks) _)
        ⟨by rwa [text?_deliver], outcome?_deliver_self (lt_of_text?_eq_some htext) _⟩,
      h.owned.finish hworks (job?_advance is_call)
        fun m => pending_deliver_iff (lt_of_text?_eq_some htext) _⟩
  | receive is_call known =>
    exact ⟨h.coherent, h.fits.advance (.refl _) ⟨h.fits _ _ _ is_call, known⟩,
      h.owned.congr (job?_advance_of_eq is_call rfl) fun _ => .rfl⟩
  | clear => exact h.of_cache h.coherent.clear nofun
  | setEnabled enabled => exact h.of_cache (h.coherent.setEnabled enabled) fun _ => id
  | setMaxSize maxSize not_negative =>
    exact h.of_cache (h.coherent.setMaxSize not_negative) fun _ => id

/-- The invariant is preserved by any number of steps. -/
theorem Inv.run {es : List Event} (h : w.Inv stops) (hrun : Run stops w es w') :
    w'.Inv stops := by
  induction hrun with
  | nil => exact h
  | snoc _ hstep ih => exact ih.step hstep

/-! ### No orphans -/

/-- The compilation of an entry has an outcome, or goes on. -/
theorem Inv.pending_of_entry (h : w.Inv stops) {e : Cache.Entry}
    (he : e ∈ w.session.cache.entries) (ho : w.session.outcome? e.job = none) :
    w.session.Pending e.job :=
  ⟨lt_of_text?_eq_some (h.coherent.entries e he), ho⟩

/-- The compilation that a call waits for has an outcome, or goes on. -/
theorem Inv.pending_of_waiting (h : w.Inv stops) (hcall : w.calls[i]? = some ⟨text, .waiting n⟩)
    (ho : w.session.outcome? n = none) : w.session.Pending n :=
  ⟨lt_of_text?_eq_some (h.fits i text _ hcall), ho⟩

/-- What is found in the cache did not fail: if it has an outcome, that is a success, and no call
is about to make a failure of it known. -/
theorem Inv.not_failed_of_seek (h : w.Inv stops) (hfound : w.session.seek text = (.join n, s)) :
    (∀ o, w.session.outcome? n = some o → ∃ c, compile text = .ok c ∧ o = .ok c) ∧
      ∀ (i : ℕ) text' f, w.calls[i]? ≠ some ⟨text', .delivering n (.error f)⟩ := by
  obtain ⟨e, he, rfl, rfl, -⟩ := exists_of_seek_eq_join hfound
  refine ⟨fun o ho => h.coherent.compile_eq_ok he ho, fun i text' f hcall => ?_⟩
  obtain ⟨-, -, herror⟩ := h.fits i text' _ hcall
  exact herror f rfl e he rfl

/-- A call that gives back the entry of its compilation leaves the entries of all others. -/
theorem Inv.entries_of_release (h : w.Inv stops) (hstep : Step stops w (.release i) w') :
    ∃ n, w.WorksOn i n ∧ (∀ j, w.WorksOn j n → j = i) ∧
      w'.session.cache.entries = w.session.cache.entries.filter (·.job ≠ n) := by
  cases hstep with
  | @release _ n text f is_call =>
    have hworks := job?_eq is_call
    obtain ⟨htext, -⟩ := h.fits _ _ _ is_call
    exact ⟨n, hworks, fun j hj => (h.owned.owner n (h.owned.pending i n hworks)).unique hj hworks,
      h.coherent.entries_release htext⟩

/-- **No orphans, and no failures in the cache.**  After any steps, a compilation without an
outcome that has an entry, or for which a call waits, is one that exactly one call has yet to
bring to its end; and if the compilation of an entry has an outcome, it is the success of the
text.  So nothing that failed is found; once nobody works, all entries have their outcomes and
nobody has to wait; and a failed compilation that gives its entry back leaves all others. -/
theorem no_orphans {size : Cache.Size} {enabled : Bool} {cache : Cache} {es : List Event}
    (hnew : Cache.new? size enabled = .ok cache) (hrun : Run stops (ofCache cache) es w) :
    (∀ e ∈ w.session.cache.entries, w.session.outcome? e.job = none → ∃! i, w.WorksOn i e.job) ∧
    (∀ (i : ℕ) text n, w.calls[i]? = some ⟨text, .waiting n⟩ → w.session.outcome? n = none →
      ∃! j, w.WorksOn j n) ∧
    (∀ e ∈ w.session.cache.entries, ∀ o, w.session.outcome? e.job = some o →
      ∃ c, compile e.text = .ok c ∧ o = .ok c) ∧
    (∀ text n s, w.session.seek text = (.join n, s) →
      (∀ o, w.session.outcome? n = some o → ∃ c, compile text = .ok c ∧ o = .ok c) ∧
      ∀ (i : ℕ) text' f, w.calls[i]? ≠ some ⟨text', .delivering n (.error f)⟩) ∧
    ((∀ i n, ¬ w.WorksOn i n) →
      (∀ e ∈ w.session.cache.entries, ∃ o, w.session.outcome? e.job = some o) ∧
      ∀ (i : ℕ) text n, w.calls[i]? = some ⟨text, .waiting n⟩ →
        ∃ o, w.session.outcome? n = some o) ∧
    ∀ i w', Step stops w (.release i) w' → ∃ n, w.WorksOn i n ∧ (∀ j, w.WorksOn j n → j = i) ∧
      w'.session.cache.entries = w.session.cache.entries.filter (·.job ≠ n) := by
  have h : w.Inv stops := (Inv.of_new? hnew).run hrun
  have hentry : ∀ e ∈ w.session.cache.entries, w.session.outcome? e.job = none →
      ∃! i, w.WorksOn i e.job := by
    intro e he ho
    exact h.owned.owner _ (h.pending_of_entry he ho)
  have hwaiting : ∀ (i : ℕ) text n, w.calls[i]? = some ⟨text, .waiting n⟩ →
      w.session.outcome? n = none → ∃! j, w.WorksOn j n := by
    intro i text n hcall ho
    exact h.owned.owner n (h.pending_of_waiting hcall ho)
  refine ⟨hentry, hwaiting, ?_, ?_, ?_, ?_⟩
  · intro e he o ho
    exact h.coherent.compile_eq_ok he ho
  · intro text n s hfound
    exact h.not_failed_of_seek hfound
  · intro hidle
    refine ⟨fun e he => ?_, fun i text n hcall => ?_⟩
    · by_contra hnone
      have ho := Option.eq_none_iff_forall_ne_some.2 (not_exists.1 hnone)
      obtain ⟨i, hi, -⟩ := hentry e he ho
      exact hidle i _ hi
    · by_contra hnone
      have ho := Option.eq_none_iff_forall_ne_some.2 (not_exists.1 hnone)
      obtain ⟨j, hj, -⟩ := hwaiting i text n hcall ho
      exact hidle j n hj
  · intro i w' hstep
    exact h.entries_of_release hstep

/-- A cache for one entry. -/
def forOne : Cache := ⟨[], .whole 1, true, 0, 0⟩

/-- A text is looked up, then another one, and then the first again. -/
def displacing : List Event :=
  [.call "1.x", .seek 0 "1.x", .call "2.x", .seek 1 "2.x", .call "1.x", .seek 2 "1.x"]

/-- The first text is compiled twice, because the entry of the first compilation had to make room
for the second one. -/
def displaced : SharedSession where
  session :=
    { cache := ⟨[⟨"1.x", 2⟩], .whole 1, true, 0, 3⟩
      jobs := [⟨"1.x", none⟩, ⟨"2.x", none⟩, ⟨"1.x", none⟩] }
  calls :=
    [⟨"1.x", .compiling (.shared 0)⟩, ⟨"2.x", .compiling (.shared 1)⟩,
      ⟨"1.x", .compiling (.shared 2)⟩]

theorem run_displacing (stops : Compilation → Bool) :
    Run stops (ofCache forOne) displacing displaced :=
  .snoc (.snoc (.snoc (.snoc (.snoc (.snoc .nil (.callOn "1.x" rfl)) (.start rfl rfl))
    (.callOn "2.x" rfl)) (.start rfl rfl)) (.callOn "1.x" rfl)) (.start rfl rfl)

/-- The first of the two compilations was interrupted. -/
def displacedFailing : SharedSession :=
  displaced.advance displaced.session 0 "1.x" (.failing 0 .interrupted)

theorem run_displacedFailing :
    Run (· = .shared 0) (ofCache forOne) (displacing ++ [.compiled 0]) displacedFailing :=
  (run_displacing _).snoc (.compileError rfl rfl)

/-- The entry that is left when the first compilation has given its own back is that of the second
one. -/
theorem no_orphans_displaced :
    Cache.new? (.whole 1) true = .ok forOne ∧
    Run (· = .shared 0) (ofCache forOne) (displacing ++ [.compiled 0]) displacedFailing ∧
    (∃! i, displacedFailing.WorksOn i 2) ∧
    ∃ w', Step (· = .shared 0) displacedFailing (.release 0) w' ∧
      w'.session.cache.entries = [⟨"1.x", 2⟩] := by
  have hnew : Cache.new? (.whole 1) true = .ok forOne := rfl
  have hrun := run_displacedFailing
  have hstep : Step (· = .shared 0) displacedFailing (.release 0) _ :=
    .release (show displacedFailing.calls[0]? = some ⟨"1.x", .failing 0 .interrupted⟩ from rfl)
  obtain ⟨hentry, -, -, -, -, hrelease⟩ := no_orphans hnew hrun
  refine ⟨hnew, hrun, hentry ⟨"1.x", 2⟩ (List.mem_singleton_self _) rfl, _, hstep, ?_⟩
  obtain ⟨n, hn, -, hentries⟩ := hrelease 0 _ hstep
  cases hn
  exact hentries

end SharedSession

end SemverRange
