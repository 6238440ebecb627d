import SemverRange.Proofs.Cache.AtMostOnce

/-!
# Several calls for a text that is not there

Any number of calls ask for one text that is not in the cache, they take their steps in any order,
and nothing else happens.  As long as not all of them have ended, one of them can go on, and none
takes more than five steps, so that they all come to their end.

If the text compiles, the first look-up starts the only compilation, and its entry stays the
latest: all others join it.  If it does not, a call that looks the text up after the entry was
given back starts another compilation; still every look-up is counted once, and every miss is
one compilation.

## Main definitions

* `Phase.remaining` — how many steps a call takes at most from where it stands.
* `SharedSession.Tally` — the calls, look-ups, compilations and steps, counted.
* `SharedSession.Fresh` — all of them have to do with new compilations only.
* `SharedSession.Sole` — there is one compilation at most, and its entry is the latest.

## Main results

* `SharedSession.Inv.exists_step` — a call that has not ended can go on, or another one can.
* `SharedSession.first_access` — **what calls for a new text lead to, in whatever order they take
  their steps**.
-/

namespace SemverRange

open Session Cache

/-! ### Where a call stands -/

namespace Phase

/-- The call has ended. -/
def isEnded : Phase → Bool
  | ended _ _ => true
  | _ => false

/-- How many steps the call takes at most from here. -/
def remaining : Phase → ℕ
  | arriving => 4
  | compiling _ => 3
  | failing _ _ => 2
  | delivering _ _ | waiting _ => 1
  | ended _ _ => 0

/-- How many look-ups the call has yet to make. -/
def lookups : Phase → ℕ
  | arriving => 1
  | _ => 0

/-- How many compilations the call is making. -/
def compilations : Phase → ℕ
  | compiling _ => 1
  | _ => 0

/-- The compilation that the call makes or waits for. -/
def compilation? : Phase → Option Compilation
  | arriving => none
  | compiling k | ended k _ => some k
  | failing n _ | delivering n _ | waiting n => some (.shared n)

end Phase

namespace SharedSession

namespace Event

/-- A call is made. -/
def isCall : Event → Bool
  | call _ => true
  | _ => false

/-- A compilation ends. -/
def isCompiled : Event → Bool
  | compiled _ => true
  | _ => false

/-- The event is a step of a call, and any call that is made asks for the text. -/
def isFor (text : String) : Event → Bool
  | call other => other = text
  | clear | setEnabled _ | setMaxSize _ => false
  | _ => true

theorem isOfCall_of_isFor {text : String} {e : Event} (h : e.isFor text = true) :
    e.isOfCall = true := by
  cases e <;> first | rfl | cases h

end Event

variable {stops : Compilation → Bool} {w₀ w w' : SharedSession} {s : Session} {size : Size}
  {text other : String} {phase phase' : Phase} {es : List Event} {e : Event} {i n : ℕ}

/-! ### Going on -/

/-- A call that has to bring a compilation to its end can go on. -/
theorem exists_step_of_worksOn (h : w.WorksOn i n) :
    ∃ e w', Event.isFor text e = true ∧ e.isCall = false ∧ Step stops w e w' := by
  obtain ⟨⟨other, phase⟩, hcall, hjob⟩ := Option.bind_eq_some_iff.1 h
  cases phase with
  | compiling k =>
    cases k with
    | own j => exact ⟨_, _, rfl, rfl, .compileOwn hcall⟩
    | shared m =>
      cases ho : Compilation.outcome stops (.shared m) other with
      | ok c => exact ⟨_, _, rfl, rfl, .compileOk hcall ho⟩
      | error f => exact ⟨_, _, rfl, rfl, .compileError hcall ho⟩
  | failing m f => exact ⟨_, _, rfl, rfl, .release hcall⟩
  | delivering m o => exact ⟨_, _, rfl, rfl, .deliver hcall⟩
  | _ => cases hjob

/-- **Nobody waits for ever**: if a call has not ended, it can go on, or the call that it waits
for can. -/
theorem Inv.exists_step (h : w.Inv stops) (hcall : w.calls[i]? = some ⟨other, phase⟩)
    (hphase : phase.isEnded = false) :
    ∃ e w', Event.isFor text e = true ∧ e.isCall = false ∧ Step stops w e w' := by
  cases phase with
  | arriving =>
    cases hfound : w.session.cache.entries.find? (·.text = other) with
    | none =>
      have hseek := (seek_eq_start_iff h.coherent.size).2 ⟨hfound, rfl, rfl⟩
      exact ⟨_, _, rfl, rfl, .start hcall hseek⟩
    | some e =>
      have hseek := seek_eq_join_iff.2 ⟨e, hfound, rfl, rfl⟩
      exact ⟨_, _, rfl, rfl, .join hcall hseek⟩
  | compiling k =>
    cases k with
    | own j => exact ⟨_, _, rfl, rfl, .compileOwn hcall⟩
    | shared n => exact exists_step_of_worksOn (job?_eq hcall)
  | failing n f => exact exists_step_of_worksOn (job?_eq hcall)
  | delivering n o => exact exists_step_of_worksOn (job?_eq hcall)
  | waiting n =>
    cases ho : w.session.outcome? n with
    | some o => exact ⟨_, _, rfl, rfl, .receive hcall ho⟩
    | none =>
      obtain ⟨j, hj, -⟩ := h.owned.owner n (h.pending_of_waiting hcall ho)
      exact exists_step_of_worksOn hj
  | ended k o => cases hphase

/-! ### Counting -/

/-- Something counted over all calls. -/
def totalOf (f : Phase → ℕ) : List Call → ℕ
  | [] => 0
  | c :: cs => f c.phase + totalOf f cs

@[simp] theorem totalOf_cons (f : Phase → ℕ) (c : Call) (cs : List Call) :
    totalOf f (c :: cs) = f c.phase + totalOf f cs := rfl

theorem totalOf_set {f : Phase → ℕ} {cs : List Call} {c : Call} (d : Call) {i : ℕ}
    (h : cs[i]? = some c) : totalOf f (cs.set i d) + f c.phase = totalOf f cs + f d.phase := by
  induction cs generalizing i with
  | nil => cases h
  | cons b cs ih =>
    cases i with
    | zero =>
      cases h
      simp only [List.set_cons_zero, totalOf_cons]
      omega
    | succ i =>
      have htail := ih h
      simp only [List.set_cons_succ, totalOf_cons]
      omega

theorem totalOf_concat (f : Phase → ℕ) (cs : List Call) (c : Call) :
    totalOf f (cs ++ [c]) = totalOf f cs + f c.phase := by
  induction cs with
  | nil => exact Nat.add_comm _ _
  | cons b cs ih => rw [List.cons_append, totalOf_cons, totalOf_cons, ih, Nat.add_assoc]

theorem totalOf_eq_zero {f : Phase → ℕ} {cs : List Call} (h : ∀ c ∈ cs, f c.phase = 0) :
    totalOf f cs = 0 := by
  induction cs with
  | nil => rfl
  | cons c cs ih =>
    obtain ⟨hc, hcs⟩ := List.forall_mem_cons.1 h
    rw [totalOf_cons, hc, ih hcs]

/-- Something counted over all calls of the session. -/
def total (w : SharedSession) (f : Phase → ℕ) : ℕ := totalOf f w.calls

theorem total_advance (f : Phase → ℕ) (s : Session) (phase' : Phase)
    (hcall : w.calls[i]? = some ⟨other, phase⟩) :
    (w.advance s i other phase').total f + f phase = w.total f + f phase' :=
  totalOf_set _ hcall

theorem total_concat (f : Phase → ℕ) (c : Call) :
    total { w with calls := w.calls ++ [c] } f = w.total f + f c.phase :=
  totalOf_concat f w.calls c

theorem total_eq_zero {f : Phase → ℕ} (hf : ∀ k o, f (.ended k o) = 0)
    (h : ∀ c ∈ w.calls, c.phase.isEnded = true) : w.total f = 0 := by
  refine totalOf_eq_zero ?_
  intro c hc
  have hended := h c hc
  cases hphase : c.phase with
  | ended k o => exact hf k o
  | _ =>
    rw [hphase] at hended
    cases hended

/-- What several calls for the text have done since `w₀`, counted. -/
structure Tally (w₀ : SharedSession) (text : String) (es : List Event) (w : SharedSession) :
    Prop where
  /-- The calls are those before and the new ones, all for the text. -/
  calls : ∃ new, w.calls = w₀.calls ++ new ∧ new.length = es.countP Event.isCall ∧
    ∀ c ∈ new, c.text = text
  /-- Every new call is a hit or a miss, or has yet to look the text up. -/
  lookups : w.session.cache.hits + w.session.cache.misses + w.total Phase.lookups =
    w₀.session.cache.hits + w₀.session.cache.misses + es.countP Event.isCall
  /-- Every miss is a compilation that ended, or that a call is making. -/
  misses : w.session.cache.misses =
    w₀.session.cache.misses + es.countP Event.isCompiled + w.total Phase.compilations
  /-- No call takes more than five steps. -/
  steps : es.length + w.total Phase.remaining ≤ 5 * es.countP Event.isCall

/-- The calls before have all ended. -/
def Idle (w : SharedSession) : Prop := ∀ c ∈ w.calls, c.phase.isEnded = true

theorem Tally.start (hidle : w₀.Idle) : Tally w₀ text [] w₀ := by
  refine ⟨⟨[], by simp, rfl, nofun⟩, ?_, ?_, ?_⟩
  · rw [total_eq_zero (fun _ _ => rfl) hidle]
    rfl
  · rw [total_eq_zero (fun _ _ => rfl) hidle]
    rfl
  · rw [total_eq_zero (fun _ _ => rfl) hidle]
    exact Nat.le_refl 0

/-- A call that has not ended is a new one, for the text. -/
theorem Tally.le_of_call (h : Tally w₀ text es w) (hidle : w₀.Idle)
    (hcall : w.calls[i]? = some ⟨other, phase⟩) (hphase : phase.isEnded = false) :
    w₀.calls.length ≤ i ∧ other = text := by
  obtain ⟨new, hnew, -, htexts⟩ := h.calls
  rw [hnew] at hcall
  have hle : w₀.calls.length ≤ i := by
    by_contra hlt
    rw [List.getElem?_append_left (Nat.lt_of_not_le hlt)] at hcall
    have hended := hidle _ (List.mem_of_getElem? hcall)
    rw [hphase] at hended
    cases hended
  rw [List.getElem?_append_right hle] at hcall
  exact ⟨hle, htexts _ (List.mem_of_getElem? hcall)⟩

/-- A call takes a step. -/
theorem Tally.advance (h : Tally w₀ text es w) (hidle : w₀.Idle)
    (hcall : w.calls[i]? = some ⟨other, phase⟩) (hphase : phase.isEnded = false)
    (he : e.isCall = false)
    (hlookups : s.cache.hits + s.cache.misses + phase'.lookups =
      w.session.cache.hits + w.session.cache.misses + phase.lookups)
    (hmisses : s.cache.misses + phase.compilations =
      w.session.cache.misses + [e].countP Event.isCompiled + phase'.compilations)
    (hsteps : phase'.remaining < phase.remaining) :
    Tally w₀ text (es ++ [e]) (w.advance s i other phase') := by
  have hcalls : (es ++ [e]).countP Event.isCall = es.countP Event.isCall := by
    rw [List.countP_append, List.countP_singleton, he]
    rfl
  refine ⟨?_, ?_, ?_, ?_⟩
  · obtain ⟨hle, rfl⟩ := h.le_of_call hidle hcall hphase
    obtain ⟨new, hnew, hlen, htexts⟩ := h.calls
    refine ⟨new.set (i - w₀.calls.length) ⟨other, phase'⟩, ?_, ?_, ?_⟩
    · rw [SharedSession.advance, hnew, List.set_append_right _ _ hle]
    · rw [List.length_set, hlen, hcalls]
    · intro c hc
      rcases List.mem_or_eq_of_mem_set hc with hold | rfl
      · exact htexts c hold
      · rfl
  · have htotal := total_advance Phase.lookups s phase' hcall
    have hbefore := h.lookups
    rw [hcalls]
    show s.cache.hits + s.cache.misses + _ = _
    omega
  · have htotal := total_advance Phase.compilations s phase' hcall
    have hbefore := h.misses
    rw [List.countP_append]
    show s.cache.misses = _
    omega
  · have htotal := total_advance Phase.remaining s phase' hcall
    have hbefore := h.steps
    rw [hcalls, List.length_append, List.length_singleton]
    omega

/-- A call is made. -/
theorem Tally.concat (h : Tally w₀ text es w) :
    Tally w₀ text (es ++ [.call text]) { w with calls := w.calls ++ [⟨text, .arriving⟩] } := by
  have hcalls : (es ++ [Event.call text]).countP Event.isCall = es.countP Event.isCall + 1 := by
    rw [List.countP_append]
    rfl
  have hcompiled : (es ++ [Event.call text]).countP Event.isCompiled =
      es.countP Event.isCompiled := by
    rw [List.countP_append]
    rfl
  refine ⟨?_, ?_, ?_, ?_⟩
  · obtain ⟨new, hnew, hlen, htexts⟩ := h.calls
    refine ⟨new ++ [⟨text, .arriving⟩], ?_, ?_, ?_⟩
    · rw [hnew, List.append_assoc]
    · rw [List.length_append, hlen, hcalls]
      rfl
    · exact List.forall_mem_append.2 ⟨htexts, List.forall_mem_singleton.2 rfl⟩
  · rw [total_concat, hcalls, ← Nat.add_assoc, h.lookups]
    rfl
  · rw [total_concat, hcompiled]
    exact h.misses
  · have hbefore := h.steps
    rw [total_concat, hcalls, List.length_append, List.length_singleton, Phase.remaining]
    omega

theorem Tally.step (h : Tally w₀ text es w) (hidle : w₀.Idle) (hinv : w.Inv stops)
    (hsteady : w.Steady size) (he : e.isFor text = true) (hstep : Step stops w e w') :
    Tally w₀ text (es ++ [e]) w' := by
  cases hstep with
  | callOn other on =>
    obtain rfl : other = text := of_decide_eq_true he
    exact h.concat
  | callOff other off =>
    rw [hsteady.enabled] at off
    cases off
  | join is_call found =>
    obtain ⟨e, -, -, -, rfl⟩ := exists_of_seek_eq_join found
    refine h.advance hidle is_call rfl rfl ?_ rfl (by simp [Phase.remaining])
    exact Nat.add_right_comm w.session.cache.hits 1 w.session.cache.misses
  | start is_call found =>
    obtain ⟨-, rfl, rfl⟩ := (seek_eq_start_iff hinv.coherent.size).1 found
    exact h.advance hidle is_call rfl rfl rfl rfl (by simp [Phase.remaining])
  | compileOwn is_call =>
    obtain ⟨n, hn⟩ := hsteady.shared _ _ _ is_call
    cases hn
  | compileOk is_call ok =>
    exact h.advance hidle is_call rfl rfl rfl rfl (by simp [Phase.remaining])
  | compileError is_call error =>
    exact h.advance hidle is_call rfl rfl rfl rfl (by simp [Phase.remaining])
  | release is_call =>
    exact h.advance hidle is_call rfl rfl rfl rfl (by simp [Phase.remaining])
  | deliver is_call =>
    exact h.advance hidle is_call rfl rfl rfl rfl (by simp [Phase.remaining])
  | receive is_call known =>
    exact h.advance hidle is_call rfl rfl rfl rfl (by simp [Phase.remaining])
  | clear => cases he
  | setEnabled enabled => cases he
  | setMaxSize maxSize not_negative => cases he

/-! ### New compilations -/

/-- The entries of the text, and the new calls, have to do with compilations that started after
`w₀`. -/
structure Fresh (w₀ : SharedSession) (text : String) (w : SharedSession) : Prop where
  /-- An entry of the text is one of a new compilation. -/
  entries : ∀ e ∈ w.session.cache.entries, e.text = text → w₀.session.cache.misses ≤ e.job
  /-- A new call makes a new compilation, or waits for one. -/
  calls : ∀ (i : ℕ) c, w₀.calls.length ≤ i → w.calls[i]? = some c →
    ∀ k ∈ c.phase.compilation?, ∃ n, k = .shared n ∧ w₀.session.cache.misses ≤ n

theorem Fresh.start (habsent : text ∉ w₀.session.cache.keys) : Fresh w₀ text w₀ := by
  refine ⟨?_, ?_⟩
  · rintro e he rfl
    exact absurd (List.mem_map_of_mem he) habsent
  · intro i c hi hc
    rw [List.getElem?_eq_none hi] at hc
    cases hc

/-- A call takes a step. -/
theorem Fresh.advance (h : Fresh w₀ text w)
    (hentries : ∀ e ∈ s.cache.entries, e.text = text → w₀.session.cache.misses ≤ e.job)
    (hphase : ∀ k ∈ phase'.compilation?, ∃ n, k = .shared n ∧ w₀.session.cache.misses ≤ n) :
    Fresh w₀ text (w.advance s i other phase') := by
  refine ⟨hentries, ?_⟩
  intro j c hj hc
  rcases eq_or_of_call_advance hc with ⟨-, rfl⟩ | ⟨-, hold⟩
  · exact hphase
  · exact h.calls j c hj hold

/-- A call takes a step with the compilation that it had before. -/
theorem Fresh.proceed (h : Fresh w₀ text w) (htally : Tally w₀ text es w) (hidle : w₀.Idle)
    (hcall : w.calls[i]? = some ⟨other, phase⟩) (hphase : phase.isEnded = false)
    (hentries : s.cache.entries ⊆ w.session.cache.entries)
    (hsame : phase'.compilation? = phase.compilation?) :
    Fresh w₀ text (w.advance s i other phase') := by
  obtain ⟨hi, -⟩ := htally.le_of_call hidle hcall hphase
  refine h.advance (fun e he => h.entries e (hentries he)) ?_
  rw [hsame]
  exact h.calls i _ hi hcall

theorem Fresh.step (h : Fresh w₀ text w) (htally : Tally w₀ text es w) (hidle : w₀.Idle)
    (hinv : w.Inv stops) (hsteady : w.Steady size) (he : e.isFor text = true)
    (hstep : Step stops w e w') : Fresh w₀ text w' := by
  cases hstep with
  | callOn other on =>
    refine ⟨h.entries, ?_⟩
    intro i c hi hc
    rcases eq_or_of_call_concat hc with ⟨-, rfl⟩ | hold
    · exact nofun
    · exact h.calls i c hi hold
  | callOff other off =>
    rw [hsteady.enabled] at off
    cases off
  | join is_call found =>
    obtain ⟨-, rfl⟩ := htally.le_of_call hidle is_call rfl
    obtain ⟨e, he, htext, rfl, rfl⟩ := exists_of_seek_eq_join found
    refine h.advance ?_ ?_
    · exact fun e' he' => h.entries e' ((Cache.perm_touch he).mem_iff.1 he')
    · rintro k ⟨⟩
      exact ⟨_, rfl, h.entries e he htext⟩
  | start is_call found =>
    obtain ⟨-, rfl⟩ := htally.le_of_call hidle is_call rfl
    obtain ⟨-, rfl, rfl⟩ := (seek_eq_start_iff hinv.coherent.size).1 found
    -- the numbers of the compilations only grow
    have hle : w₀.session.cache.misses ≤ w.session.cache.misses := by
      rw [htally.misses, Nat.add_assoc]
      exact Nat.le_add_right _ _
    refine h.advance ?_ ?_
    · intro e' he' htext
      rcases mem_or_eq_of_mem_insert he' with hold | rfl
      · exact h.entries e' hold htext
      · exact hle
    · rintro k ⟨⟩
      exact ⟨_, rfl, hle⟩
  | compileOwn is_call =>
    obtain ⟨n, hn⟩ := hsteady.shared _ _ _ is_call
    cases hn
  | compileOk is_call ok => exact h.proceed htally hidle is_call rfl (List.Subset.refl _) rfl
  | compileError is_call error => exact h.proceed htally hidle is_call rfl (List.Subset.refl _) rfl
  | release is_call => exact h.proceed htally hidle is_call rfl List.erase_subset rfl
  | deliver is_call => exact h.proceed htally hidle is_call rfl (List.Subset.refl _) rfl
  | receive is_call known => exact h.proceed htally hidle is_call rfl (List.Subset.refl _) rfl
  | clear => cases he
  | setEnabled enabled => cases he
  | setMaxSize maxSize not_negative => cases he

/-! ### A text that compiles -/

/-- The text has not been looked up since `w₀`, or it was compiled once and its entry is the
latest. -/
inductive Sole (w₀ : SharedSession) (text : String) (w : SharedSession) : Prop
  | unseen (hits : w.session.cache.hits = w₀.session.cache.hits)
      (misses : w.session.cache.misses = w₀.session.cache.misses)
      (absent : text ∉ w.session.cache.keys)
  | seen (misses : w.session.cache.misses = w₀.session.cache.misses + 1)
      (latest : FollowedBy w.session.cache.entries ⟨text, w₀.session.cache.misses⟩ [])

/-- The cache does not change. -/
theorem Sole.congr (h : Sole w₀ text w) (hcache : w'.session.cache = w.session.cache) :
    Sole w₀ text w' := by
  cases h with
  | unseen hits misses absent => exact .unseen (hcache ▸ hits) (hcache ▸ misses) (hcache ▸ absent)
  | seen misses latest => exact .seen (hcache ▸ misses) (hcache ▸ latest)

/-- As long as no compilation fails, there is one at most. -/
theorem Sole.step (h : Sole w₀ text w) (hfresh : Fresh w₀ text w) (htally : Tally w₀ text es w)
    (hidle : w₀.Idle) (hinv : w.Inv stops) (hsteady : w.Steady size)
    (hsize : size.isTooSmall = false) {v : Compiled}
    (hok : ∀ n, w₀.session.cache.misses ≤ n → Compilation.outcome stops (.shared n) text = .ok v)
    (he : e.isFor text = true) (hstep : Step stops w e w') : Sole w₀ text w' := by
  cases hstep with
  | join is_call found =>
    obtain ⟨-, rfl⟩ := htally.le_of_call hidle is_call rfl
    obtain ⟨e, hmem, rfl, rfl, rfl⟩ := exists_of_seek_eq_join found
    cases h with
    | unseen hits misses absent => exact absurd (List.mem_map_of_mem hmem) absent
    | seen misses latest =>
      -- there is one entry of the text, and it stays the latest
      have heq : e = ⟨e.text, w₀.session.cache.misses⟩ :=
        List.inj_on_of_nodup_map hinv.coherent.keys hmem latest.mem rfl
      refine .seen misses ?_
      rw [← heq]
      exact .latest _ e
  | start is_call found =>
    obtain ⟨-, rfl⟩ := htally.le_of_call hidle is_call rfl
    obtain ⟨hmiss, rfl, rfl⟩ := (seek_eq_start_iff hinv.coherent.size).1 found
    cases h with
    | unseen hits misses absent =>
      refine .seen (congrArg Nat.succ misses) ?_
      rw [← misses]
      refine (FollowedBy.latest _ _).evict (hinv.coherent.keys_concat hmiss _) ?_
      intro n hn
      rw [hsteady.maxSize] at hn
      exact Cache.Size.one_le_of_room_eq_some hsize hn
    | seen misses latest =>
      exact absurd (List.mem_map_of_mem latest.mem) (Cache.find?_eq_none_iff.1 hmiss)
  | release is_call =>
    -- no compilation of the text fails
    obtain ⟨hi, rfl⟩ := htally.le_of_call hidle is_call rfl
    obtain ⟨-, herror⟩ := hinv.fits _ _ _ is_call
    obtain ⟨n, hn, hle⟩ := hfresh.calls _ _ hi is_call _ rfl
    rw [hn, hok n hle] at herror
    cases herror
  | clear => cases he
  | setEnabled enabled => cases he
  | setMaxSize maxSize not_negative => cases he
  | _ => exact h.congr rfl

/-! ### Any number of steps -/

section Runs

variable (hinv : w₀.Inv stops) (hsteady : w₀.Steady size) (hidle : w₀.Idle)
  (habsent : text ∉ w₀.session.cache.keys)
include hinv hsteady hidle habsent

theorem tally_of_run (hrun : Run stops w₀ es w) (hes : ∀ e ∈ es, e.isFor text = true) :
    w.Steady size ∧ Tally w₀ text es w ∧ Fresh w₀ text w := by
  induction hrun with
  | nil => exact ⟨hsteady, .start hidle, .start habsent⟩
  | snoc hrun hstep ih =>
    obtain ⟨hes, hlast⟩ := List.forall_mem_append.1 hes
    have he := hlast _ (List.mem_singleton_self _)
    obtain ⟨hsteady, htally, hfresh⟩ := ih hes
    have hinv := hinv.run hrun
    exact ⟨hsteady.step hinv (Event.isOfCall_of_isFor he) hstep,
      htally.step hidle hinv hsteady he hstep,
      hfresh.step htally hidle hinv hsteady he hstep⟩

theorem sole_of_run (hsize : size.isTooSmall = false) {v : Compiled}
    (hok : ∀ n, w₀.session.cache.misses ≤ n → Compilation.outcome stops (.shared n) text = .ok v)
    (hrun : Run stops w₀ es w) (hes : ∀ e ∈ es, e.isFor text = true) : Sole w₀ text w := by
  induction hrun with
  | nil => exact .unseen rfl rfl habsent
  | snoc hrun hstep ih =>
    obtain ⟨hes, hlast⟩ := List.forall_mem_append.1 hes
    obtain ⟨hsteady, htally, hfresh⟩ := tally_of_run hinv hsteady hidle habsent hrun hes
    exact (ih hes).step hfresh htally hidle (hinv.run hrun) hsteady hsize hok
      (hlast _ (List.mem_singleton_self _)) hstep

end Runs

/-! ### The end -/

section Ended

variable (hinv : w.Inv stops) (hended : w.Idle)
include hinv hended

/-- Once all calls have ended, no compilation goes on. -/
theorem Inv.not_pending (n : ℕ) : ¬ w.session.Pending n := by
  intro hn
  obtain ⟨i, hi, -⟩ := hinv.owned.owner n hn
  obtain ⟨c, hcall, hjob⟩ := Option.bind_eq_some_iff.1 hi
  have hphase := hended c (List.mem_of_getElem? hcall)
  cases hc : c.phase with
  | ended k o => rw [hc] at hjob; cases hjob
  | _ => rw [hc] at hphase; cases hphase

/-- A text that does not compile has no entry then. -/
theorem Inv.notMem_keys {f : SemverRange.Fault} (hf : compile text = .error f) :
    text ∉ w.session.cache.keys := by
  intro hmem
  obtain ⟨e, he, rfl⟩ := List.mem_map.1 hmem
  cases ho : w.session.outcome? e.job with
  | none => exact hinv.not_pending hended e.job (hinv.pending_of_entry he ho)
  | some o =>
    obtain ⟨v, hv, -⟩ := hinv.coherent.compile_eq_ok he ho
    rw [hf] at hv
    cases hv

/-- A new call ended with the outcome of a new compilation. -/
theorem Fresh.exists_of_ended (hfresh : Fresh w₀ text w)
    (hcall : w.calls[i]? = some ⟨text, phase⟩) (hi : w₀.calls.length ≤ i) :
    ∃ n, w₀.session.cache.misses ≤ n ∧ n < w.session.cache.misses ∧
      phase = .ended (.shared n) (Compilation.outcome stops (.shared n) text) := by
  have hphase := hended _ (List.mem_of_getElem? hcall)
  cases phase with
  | ended k o =>
    obtain ⟨n, rfl, hn⟩ := hfresh.calls i _ hi hcall k rfl
    obtain ⟨htext, ho⟩ := hinv.fits i text _ hcall
    refine ⟨n, hn, ?_, ?_⟩
    · rw [hinv.coherent.misses]
      exact lt_of_text?_eq_some htext
    · rw [hinv.coherent.outcomes n text o htext ho]
  | _ => cases hphase

end Ended

/-- **What calls for a new text lead to.**  A cache is on and has room for an entry, the text is not
in it, and no call is under way.  Then some calls ask for the text, at least one, and take their
steps in any order, while nothing else happens and no compilation is interrupted.  As long as not
all of them have ended, one of them can go on; and no more than five steps for each are taken, so
that they all come to their end.

If the text compiles, exactly one compilation was made then, one look-up was a miss and all others
were hits, all calls ended with what that compilation gave, and the text is the most recently used
one.  If it does not, all calls ended with what is wrong with the text, every miss was a
compilation, every call was a hit or a miss, and the text is not in the cache. -/
theorem first_access {enabled : Bool} {cache : Cache} {es₀ : List Event}
    (hnew : Cache.new? size enabled = .ok cache) (hstart : Run stops (ofCache cache) es₀ w₀)
    (hidle : ∀ c ∈ w₀.calls, c.phase.isEnded = true)
    (hon : w₀.session.cache.enabled = true)
    (hsize : w₀.session.cache.maxSize.isTooSmall = false)
    (habsent : text ∉ w₀.session.cache.keys)
    (hstops : ∀ m, w₀.session.cache.misses ≤ m → stops (.shared m) = false)
    (hrun : Run stops w₀ es w) (hes : ∀ e ∈ es, e.isFor text = true)
    (hn : es.countP Event.isCall = n) (hpos : 1 ≤ n) :
    es.length ≤ 5 * n ∧
    ((∃ c ∈ w.calls, c.phase.isEnded = false) →
      ∃ e w', e.isFor text = true ∧ e.isCall = false ∧ Step stops w e w') ∧
    ((∀ c ∈ w.calls, c.phase.isEnded = true) →
      (∀ v, compile text = .ok v →
        es.countP Event.isCompiled = 1 ∧
        w.session.cache.misses = w₀.session.cache.misses + 1 ∧
        w.session.cache.hits = w₀.session.cache.hits + (n - 1) ∧
        w.calls = w₀.calls ++
          List.replicate n ⟨text, .ended (.shared w₀.session.cache.misses) (.ok v)⟩ ∧
        w.session.cache.keys.getLast? = some text) ∧
      ∀ f, compile text = .error f →
        (∃ new, w.calls = w₀.calls ++ new ∧ new.length = n ∧
          ∀ c ∈ new, ∃ m, c = ⟨text, .ended (.shared m) (.error (.ofFormula f))⟩) ∧
        w.session.cache.misses = w₀.session.cache.misses + es.countP Event.isCompiled ∧
        w.session.cache.hits + w.session.cache.misses =
          w₀.session.cache.hits + w₀.session.cache.misses + n ∧
        text ∉ w.session.cache.keys) := by
  have hinv₀ : w₀.Inv stops := (Inv.of_new? hnew).run hstart
  have hinv : w.Inv stops := hinv₀.run hrun
  have hsteady₀ : w₀.Steady w₀.session.cache.maxSize := by
    refine ⟨hon, rfl, ?_⟩
    intro i other k hcall
    cases hidle _ (List.mem_of_getElem? hcall)
  obtain ⟨-, htally, hfresh⟩ := tally_of_run hinv₀ hsteady₀ hidle habsent hrun hes
  subst hn
  refine ⟨Nat.le_trans (Nat.le_add_right _ _) htally.steps, ?_, ?_⟩
  · rintro ⟨⟨other, phase⟩, hc, hphase⟩
    obtain ⟨i, hcall⟩ := List.mem_iff_getElem?.1 hc
    exact hinv.exists_step hcall hphase
  intro hended
  obtain ⟨new, hnew, hlen, htexts⟩ := htally.calls
  have hcalls : ∀ c ∈ new, ∃ m, w₀.session.cache.misses ≤ m ∧ m < w.session.cache.misses ∧
      c = ⟨text, .ended (.shared m) (outcomeOf text)⟩ := by
    intro c hc
    obtain ⟨j, hj⟩ := List.mem_iff_getElem?.1 hc
    obtain ⟨other, phase⟩ := c
    obtain rfl : other = text := htexts _ hc
    have hcall : w.calls[w₀.calls.length + j]? = some ⟨other, phase⟩ := by
      rw [hnew, List.getElem?_append_right (Nat.le_add_right _ _), Nat.add_sub_cancel_left, hj]
    obtain ⟨m, hle, hlt, rfl⟩ :=
      hfresh.exists_of_ended hinv hended hcall (Nat.le_add_right _ _)
    refine ⟨m, hle, hlt, ?_⟩
    rw [Compilation.outcome, hstops m hle]
    rfl
  have hlookups := htally.lookups
  have hmisses := htally.misses
  rw [total_eq_zero (fun _ _ => rfl) hended, Nat.add_zero] at hlookups hmisses
  constructor
  · intro v hv
    have houtcome : outcomeOf text = .ok v := by rw [outcomeOf, hv]; rfl
    have hok : ∀ m, w₀.session.cache.misses ≤ m →
        Compilation.outcome stops (.shared m) text = .ok v := by
      intro m hm
      exact Compilation.outcome_eq_ok_iff.2 ⟨hstops m hm, hv⟩
    cases sole_of_run hinv₀ hsteady₀ hidle habsent hsize hok hrun hes with
    | unseen hits misses absent =>
      -- some call has ended, so the text was looked up
      omega
    | seen misses latest =>
      refine ⟨by omega, misses, by omega, ?_, ?_⟩
      · rw [hnew, ← hlen]
        refine congrArg _ (List.eq_replicate_iff.2 ⟨rfl, ?_⟩)
        intro c hc
        obtain ⟨m, hle, hlt, rfl⟩ := hcalls c hc
        obtain rfl : m = w₀.session.cache.misses := by omega
        rw [houtcome]
      · obtain ⟨pre, post, hentries, hpost⟩ := latest
        obtain rfl : post = [] := by
          refine List.eq_nil_iff_forall_not_mem.2 ?_
          intro e he
          cases hpost e he
        rw [Cache.keys, hentries, List.map_append]
        exact List.getLast?_concat
  · intro f hf
    have houtcome : outcomeOf text = .error (.ofFormula f) := by rw [outcomeOf, hf]; rfl
    refine ⟨⟨new, hnew, hlen, ?_⟩, hmisses, hlookups, hinv.notMem_keys hended hf⟩
    intro c hc
    obtain ⟨m, -, -, rfl⟩ := hcalls c hc
    exact ⟨m, by rw [houtcome]⟩

/-- Two calls look the text up before it is compiled. -/
def joining : List Event :=
  [.call "1.x", .call "1.x", .seek 0 "1.x", .seek 1 "1.x", .compiled 0, .deliver 0, .receive 1]

/-- The second call got what the first one compiled. -/
def joined (v : Compiled) : SharedSession where
  session := { cache := ⟨[⟨"1.x", 0⟩], .whole 1, true, 1, 1⟩, jobs := [⟨"1.x", some (.ok v)⟩] }
  calls := [⟨"1.x", .ended (.shared 0) (.ok v)⟩, ⟨"1.x", .ended (.shared 0) (.ok v)⟩]

/-- A call looks the text up when the entry of another one was given back, and that one has yet to
end. -/
def retrying : List Event :=
  [.call "1..2", .seek 0 "1..2", .compiled 0, .release 0, .call "1..2", .seek 1 "1..2",
    .compiled 1, .release 1, .deliver 0, .deliver 1]

/-- Both calls tried to compile the text. -/
def retried (f : Cache.Fault) : SharedSession where
  session :=
    { cache := ⟨[], .whole 1, true, 0, 2⟩
      jobs := [⟨"1..2", some (.error f)⟩, ⟨"1..2", some (.error f)⟩] }
  calls := [⟨"1..2", .ended (.shared 0) (.error f)⟩, ⟨"1..2", .ended (.shared 1) (.error f)⟩]

theorem run_retrying {f : Cache.Fault}
    (h : ∀ k, Compilation.outcome (fun _ => false) k "1..2" = .error f) :
    Run (fun _ => false) (ofCache forOne) retrying (retried f) := by
  have hfirst : Run (fun _ => false) (ofCache forOne)
      [.call "1..2", .seek 0 "1..2", .compiled 0]
      ⟨⟨⟨[⟨"1..2", 0⟩], .whole 1, true, 0, 1⟩, [⟨"1..2", none⟩]⟩, [⟨"1..2", .failing 0 f⟩]⟩ :=
    .snoc (.snoc (.snoc .nil (.callOn "1..2" rfl)) (.start rfl rfl)) (.compileError rfl (h _))
  have hreleased : Run (fun _ => false) (ofCache forOne)
      [.call "1..2", .seek 0 "1..2", .compiled 0, .release 0]
      ⟨⟨⟨[], .whole 1, true, 0, 1⟩, [⟨"1..2", none⟩]⟩, [⟨"1..2", .delivering 0 (.error f)⟩]⟩ :=
    hfirst.snoc (@Step.release _ _ 0 0 "1..2" f rfl)
  have hsecond := ((hreleased.snoc (.callOn "1..2" rfl)).snoc
    (@Step.start _ _ 1 1 "1..2" _ rfl rfl)).snoc (@Step.compileError _ _ 1 1 "1..2" f rfl (h _))
  exact ((hsecond.snoc (@Step.release _ _ 1 1 "1..2" f rfl)).snoc
    (@Step.deliver _ _ 0 0 "1..2" (.error f) rfl)).snoc
    (@Step.deliver _ _ 1 1 "1..2" (.error f) rfl)

/-- Two calls for a text that compiles, and two for one that does not. -/
theorem first_access_forOne :
    Cache.new? (.whole 1) true = .ok forOne ∧
    (∃ v, compile "1.x" = .ok v ∧ Run (fun _ => false) (ofCache forOne) joining (joined v) ∧
      joining.countP Event.isCompiled = 1 ∧
      (joined v).session.cache.keys.getLast? = some "1.x") ∧
    ∃ f, compile "1..2" = .error f ∧
      Run (fun _ => false) (ofCache forOne) retrying (retried (.ofFormula f)) ∧
      (retried (.ofFormula f)).session.cache.misses = 0 + retrying.countP Event.isCompiled := by
  have hnew : Cache.new? (.whole 1) true = .ok forOne := rfl
  have hok : (compile "1.x").isOk = true := by decide +kernel
  have herror : (compile "1..2").isOk = false := by decide +kernel
  refine ⟨hnew, ?_, ?_⟩
  · cases hv : compile "1.x" with
    | error f => rw [hv] at hok; cases hok
    | ok v =>
      have houtcome : Compilation.outcome (fun _ => false) (.shared 0) "1.x" = .ok v :=
        Compilation.outcome_eq_ok_iff.2 ⟨rfl, hv⟩
      have hrun : Run (fun _ => false) (ofCache forOne) joining (joined v) :=
        .snoc (.snoc (.snoc (.snoc (.snoc (.snoc (.snoc .nil (.callOn "1.x" rfl))
          (.callOn "1.x" rfl)) (.start rfl rfl)) (.join rfl rfl)) (.compileOk rfl houtcome))
          (.deliver rfl)) (.receive rfl rfl)
      have habsent : "1.x" ∉ (ofCache forOne).session.cache.keys := List.not_mem_nil
      have hidle : (ofCache forOne).Idle := fun _ hc => absurd hc List.not_mem_nil
      obtain ⟨-, -, hend⟩ := first_access (n := 2) hnew .nil hidle rfl rfl habsent
        (fun _ _ => rfl) hrun (by decide) rfl (by decide)
      obtain ⟨hcompiled, -, -, -, hlast⟩ := (hend (List.all_eq_true.1 rfl)).1 v hv
      exact ⟨v, rfl, hrun, hcompiled, hlast⟩
  · cases hf : compile "1..2" with
    | ok v => rw [hf] at herror; cases herror
    | error f =>
      have hrun : Run (fun _ => false) (ofCache forOne) retrying (retried (.ofFormula f)) := by
        apply run_retrying
        intro k
        rw [Compilation.outcome, if_neg Bool.false_ne_true, outcomeOf, hf]
        rfl
      have habsent : "1..2" ∉ (ofCache forOne).session.cache.keys := List.not_mem_nil
      have hidle : (ofCache forOne).Idle := fun _ hc => absurd hc List.not_mem_nil
      obtain ⟨-, -, hend⟩ := first_access (n := 2) hnew .nil hidle rfl rfl habsent
        (fun _ _ => rfl) hrun (by decide) rfl (by decide)
      obtain ⟨-, hmisses, -⟩ := (hend (List.all_eq_true.1 rfl)).2 f hf
      exact ⟨f, rfl, hrun, hmisses⟩

end SharedSession

end SemverRange
