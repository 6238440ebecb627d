import SemverRange.Proofs.Cache.FirstAccess
import SemverRange.Proofs.Cache.Recency

/-!
# The books of a cache

Whatever is done to a cache, and in whatever order the calls take their steps, its counts tell what
happened, and its size is bounded by what was allowed when something was last put into it.

What happened is read off the steps that were taken, each with the session in which it was taken:
whether a look-up finds its text, or a call passes the cache by, is a question about that session.
What the counts become in one step is said first, and the rest follows by induction on the history.

A smaller size takes effect with the next miss only, so the size that counts is the one that was in
force at the latest miss.  If that was zero, the miss left no entry at all.

## Main definitions

* `SharedSession.Taken`, `SharedSession.History` — steps with the sessions in which they were taken.
* `SharedSession.Taken.isHit`, `SharedSession.Taken.isMiss`, `SharedSession.Taken.isBypass` — what a
  step was.
* `SharedSession.roomAtLatestMiss` — how many entries the latest miss could leave.
* `SharedSession.begun` — how many compilations were started.

## Main results

* `SharedSession.Inv.recorded` — what one step adds to the counts.
* `SharedSession.Balanced.of_history` — the counts after any steps.
* `SharedSession.bookkeeping` — **the counts and the entries of a cache tell what was done to it**.
-/

namespace SemverRange

open Session Cache

namespace SharedSession

variable {stops : Compilation → Bool} {w₀ w w' : SharedSession} {s : Session} {text : String}
  {phase phase' : Phase} {es : List Event} {e : Event} {i : ℕ}

/-! ### What happened -/

/-- A step that was taken. -/
structure Taken where
  /-- The session and its calls before the step. -/
  before : SharedSession
  /-- What happened. -/
  event : Event

/-- The steps that lead from `w₀` to a session, with the sessions on the way. -/
inductive History (stops : Compilation → Bool) (w₀ : SharedSession) :
    List Taken → SharedSession → Prop
  | nil : History stops w₀ [] w₀
  | snoc {ts : List Taken} {w w' : SharedSession} {e : Event} :
      History stops w₀ ts w → Step stops w e w' → History stops w₀ (ts ++ [⟨w, e⟩]) w'

/-- Every run has a history. -/
theorem Run.exists_history (h : Run stops w₀ es w) :
    ∃ ts, History stops w₀ ts w ∧ ts.map Taken.event = es := by
  induction h with
  | nil => exact ⟨[], .nil, rfl⟩
  | snoc _ hstep ih =>
    obtain ⟨ts, hts, rfl⟩ := ih
    exact ⟨_, hts.snoc hstep, by rw [List.map_append]; rfl⟩

/-- A history is one of a run. -/
theorem History.run {ts : List Taken} (h : History stops w₀ ts w) :
    Run stops w₀ (ts.map Taken.event) w := by
  induction h with
  | nil => exact .nil
  | snoc _ hstep ih =>
    rw [List.map_append]
    exact ih.snoc hstep

namespace Taken

variable (t : Taken)

/-- A text was looked up. -/
def isLookup : Bool := t.event.text?.isSome

/-- A text was looked up that had an entry. -/
def isHit : Bool := t.event.text?.any fun text => text ∈ t.before.session.cache.keys

/-- A text was looked up that had none. -/
def isMiss : Bool := t.event.text?.any fun text => text ∉ t.before.session.cache.keys

/-- A call was made while the cache was off. -/
def isBypass : Bool := t.event.isCall && !t.before.session.cache.enabled

/-- A compilation ended. -/
def isCompiled : Bool := t.event.isCompiled

/-- A look-up is a hit or a miss, and nothing else is. -/
theorem toNat_isHit_add_isMiss : t.isHit.toNat + t.isMiss.toNat = t.isLookup.toNat := by
  rw [isHit, isMiss, isLookup]
  cases t.event.text? with
  | none => rfl
  | some text => by_cases hmem : text ∈ t.before.session.cache.keys <;> simp [hmem]

end Taken

/-- How many entries the latest of the misses could leave; before the first one there are none. -/
def roomAtLatestMiss (ts : List Taken) : Option ℕ :=
  (ts.reverse.find? Taken.isMiss).elim (some 0) fun t => t.before.session.cache.maxSize.room

theorem roomAtLatestMiss_concat (ts : List Taken) (t : Taken) : roomAtLatestMiss (ts ++ [t]) =
    if t.isMiss then t.before.session.cache.maxSize.room else roomAtLatestMiss ts := by
  rw [roomAtLatestMiss, List.reverse_append, List.reverse_singleton, List.singleton_append,
    List.find?_cons]
  cases t.isMiss <;> rfl

/-- How many compilations were started: those that ended, and those that are being made. -/
def begun (ts : List Taken) (w : SharedSession) : ℕ :=
  ts.countP Taken.isCompiled + w.total Phase.compilations

theorem countP_concat {α : Type} (p : α → Bool) (as : List α) (a : α) :
    (as ++ [a]).countP p = as.countP p + (p a).toNat := by
  rw [List.countP_append, List.countP_singleton]
  cases p a <;> rfl

/-! ### One step -/

/-- A look-up finds an entry, which becomes the latest, or makes one. -/
theorem Inv.seek_cases (h : w.Inv stops) (hstep : Step stops w (.seek i text) w') :
    w.calls[i]? = some ⟨text, .arriving⟩ ∧
      ((∃ e ∈ w.session.cache.entries, e.text = text ∧
        w' = w.advance { w.session with cache := w.session.cache.touch e } i text
          (.waiting e.job)) ∨
      (text ∉ w.session.cache.keys ∧
        w' = w.advance (w.session.snocJob (w.session.cache.insert text) text) i text
          (.compiling (.shared w.session.cache.misses)))) := by
  cases hstep with
  | join is_call found =>
    obtain ⟨e, he, htext, rfl, rfl⟩ := exists_of_seek_eq_join found
    exact ⟨is_call, .inl ⟨e, he, htext, rfl⟩⟩
  | start is_call found =>
    obtain ⟨hmiss, rfl, rfl⟩ := (seek_eq_start_iff h.coherent.size).1 found
    exact ⟨is_call, .inr ⟨Cache.find?_eq_none_iff.1 hmiss, rfl⟩⟩

/-- What a step does to the counts and to the number of entries. -/
structure Recorded (t : Taken) (w' : SharedSession) : Prop where
  /-- A hit is counted as such. -/
  hits : w'.session.cache.hits = t.before.session.cache.hits + t.isHit.toNat
  /-- A miss is counted as such. -/
  misses : w'.session.cache.misses = t.before.session.cache.misses + t.isMiss.toNat
  /-- A miss starts a compilation, as does a call that passes the cache by, and nothing else. -/
  compilations : w'.total Phase.compilations + t.isCompiled.toNat =
    t.before.total Phase.compilations + t.isMiss.toNat + t.isBypass.toNat
  /-- Only a miss can leave more entries, and no more than there is room for. -/
  size : if t.isMiss then
      ∀ n, t.before.session.cache.maxSize.room = some n → w'.session.cache.size ≤ n
    else w'.session.cache.size ≤ t.before.session.cache.size

/-- A step that neither looks anything up nor is a call leaves the counts as they are. -/
theorem Recorded.of_quiet (htext : e.text? = none) (he : e.isCall = false)
    (hhits : w'.session.cache.hits = w.session.cache.hits)
    (hmisses : w'.session.cache.misses = w.session.cache.misses)
    (hsize : w'.session.cache.size ≤ w.session.cache.size)
    (hcompilations : w'.total Phase.compilations + e.isCompiled.toNat =
      w.total Phase.compilations) : Recorded ⟨w, e⟩ w' := by
  have hmiss : Taken.isMiss ⟨w, e⟩ = false := by simp [Taken.isMiss, htext]
  have hhit : Taken.isHit ⟨w, e⟩ = false := by simp [Taken.isHit, htext]
  have hbypass : Taken.isBypass ⟨w, e⟩ = false := by simp [Taken.isBypass, he]
  refine ⟨?_, ?_, ?_, ?_⟩
  · rw [hhit]
    exact hhits
  · rw [hmiss]
    exact hmisses
  · rw [hmiss, hbypass]
    exact hcompilations
  · rw [hmiss]
    exact hsize

/-- The step of a call that looks nothing up. -/
theorem Recorded.advance (hcall : w.calls[i]? = some ⟨text, phase⟩) (htext : e.text? = none)
    (he : e.isCall = false) (hhits : s.cache.hits = w.session.cache.hits)
    (hmisses : s.cache.misses = w.session.cache.misses)
    (hsize : s.cache.size ≤ w.session.cache.size)
    (hphase : phase'.compilations + e.isCompiled.toNat = phase.compilations) :
    Recorded ⟨w, e⟩ (w.advance s i text phase') := by
  have htotal := total_advance Phase.compilations s phase' hcall
  exact .of_quiet htext he hhits hmisses hsize (by omega)

/-- A look-up is a hit or a miss, and is recorded as such. -/
theorem Inv.recorded_seek (h : w.Inv stops) (hstep : Step stops w (.seek i text) w') :
    Recorded ⟨w, .seek i text⟩ w' := by
  obtain ⟨hcall, ⟨e, he, rfl, rfl⟩ | ⟨hmiss, rfl⟩⟩ := h.seek_cases hstep
  · have htotal := total_advance Phase.compilations
      { w.session with cache := w.session.cache.touch e } (.waiting e.job) hcall
    have hmem : e.text ∈ w.session.cache.keys := List.mem_map_of_mem he
    have hhit : Taken.isHit ⟨w, .seek i e.text⟩ = true := by simp [Taken.isHit, Event.text?, hmem]
    have hnot : Taken.isMiss ⟨w, .seek i e.text⟩ = false := by
      simp [Taken.isMiss, Event.text?, hmem]
    refine ⟨?_, ?_, ?_, ?_⟩
    · rw [hhit]
      rfl
    · rw [hnot]
      rfl
    · rw [hnot]
      exact htotal
    · rw [hnot]
      exact (Cache.perm_touch he).length_eq.le
  · have htotal := total_advance Phase.compilations
      (w.session.snocJob (w.session.cache.insert text) text)
      (.compiling (.shared w.session.cache.misses)) hcall
    have hnot : Taken.isHit ⟨w, .seek i text⟩ = false := by simp [Taken.isHit, Event.text?, hmiss]
    have hmiss' : Taken.isMiss ⟨w, .seek i text⟩ = true := by
      simp [Taken.isMiss, Event.text?, hmiss]
    refine ⟨?_, ?_, ?_, ?_⟩
    · rw [hnot]
      rfl
    · rw [hmiss']
      rfl
    · rw [hmiss']
      exact htotal
    · rw [if_pos hmiss']
      intro n hn
      exact Cache.length_evict_le hn _

/-- Every step is recorded. -/
theorem Inv.recorded (h : w.Inv stops) (hstep : Step stops w e w') : Recorded ⟨w, e⟩ w' := by
  cases hstep with
  | callOn text on =>
    have htotal := total_concat (w := w) Phase.compilations ⟨text, .arriving⟩
    have hbypass : Taken.isBypass ⟨w, .call text⟩ = false := by simp [Taken.isBypass, on]
    refine ⟨rfl, rfl, ?_, Nat.le_refl _⟩
    rw [hbypass]
    exact htotal
  | callOff text off =>
    have htotal := total_concat (w := w) Phase.compilations ⟨text, .compiling (.own w.calls.length)⟩
    have hbypass : Taken.isBypass ⟨w, .call text⟩ = true := by
      simp [Taken.isBypass, Event.isCall, off]
    refine ⟨rfl, rfl, ?_, Nat.le_refl _⟩
    rw [hbypass]
    exact htotal
  | join is_call found => exact h.recorded_seek (.join is_call found)
  | start is_call found => exact h.recorded_seek (.start is_call found)
  | release is_call => exact .advance is_call rfl rfl rfl rfl (List.length_erase_le) rfl
  | clear => exact .of_quiet rfl rfl rfl rfl (Nat.zero_le _) rfl
  | setEnabled enabled => exact .of_quiet rfl rfl rfl rfl (Nat.le_refl _) rfl
  | setMaxSize maxSize not_negative => exact .of_quiet rfl rfl rfl rfl (Nat.le_refl _) rfl
  | compileOwn is_call => exact .advance is_call rfl rfl rfl rfl (Nat.le_refl _) rfl
  | compileOk is_call ok => exact .advance is_call rfl rfl rfl rfl (Nat.le_refl _) rfl
  | compileError is_call error => exact .advance is_call rfl rfl rfl rfl (Nat.le_refl _) rfl
  | deliver is_call => exact .advance is_call rfl rfl rfl rfl (Nat.le_refl _) rfl
  | receive is_call known => exact .advance is_call rfl rfl rfl rfl (Nat.le_refl _) rfl

/-! ### Any number of steps -/

/-- The counts tell what happened. -/
structure Balanced (ts : List Taken) (w : SharedSession) : Prop where
  /-- The hits are counted. -/
  hits : w.session.cache.hits = ts.countP Taken.isHit
  /-- The misses are counted. -/
  misses : w.session.cache.misses = ts.countP Taken.isMiss
  /-- Every miss, and every call that passed the cache by, started one compilation. -/
  begun : begun ts w = ts.countP Taken.isMiss + ts.countP Taken.isBypass
  /-- There are no more entries than the latest miss could leave. -/
  size : ∀ n, roomAtLatestMiss ts = some n → w.session.cache.size ≤ n

/-- A compilation that started was added to those that ended or are being made. -/
theorem Recorded.begun {t : Taken} (h : Recorded t w') (ts : List Taken) :
    begun (ts ++ [t]) w' = begun ts t.before + t.isMiss.toNat + t.isBypass.toNat := by
  have hstep := h.compilations
  rw [SharedSession.begun, SharedSession.begun, countP_concat]
  omega

theorem Balanced.concat {ts : List Taken} {t : Taken} (h : Balanced ts t.before)
    (ht : Recorded t w') : Balanced (ts ++ [t]) w' := by
  refine ⟨?_, ?_, ?_, ?_⟩
  · rw [countP_concat, ht.hits, h.hits]
  · rw [countP_concat, ht.misses, h.misses]
  · rw [ht.begun, countP_concat, countP_concat, h.begun]
    omega
  · intro n hn
    have hsize := ht.size
    rw [roomAtLatestMiss_concat] at hn
    cases hmiss : t.isMiss with
    | true =>
      rw [hmiss, if_pos rfl] at hn hsize
      exact hsize n hn
    | false =>
      rw [hmiss, if_neg Bool.false_ne_true] at hn hsize
      exact hsize.trans (h.size n hn)

variable {size : Size} {enabled : Bool} {cache : Cache} {ts : List Taken}

/-- The counts tell what happened, whatever that was. -/
theorem Balanced.of_history (hnew : Cache.new? size enabled = .ok cache)
    (h : History stops (ofCache cache) ts w) : Balanced ts w := by
  induction h with
  | nil =>
    obtain ⟨-, rfl⟩ := Cache.new?_eq_ok_iff.1 hnew
    exact ⟨rfl, rfl, rfl, fun _ _ => Nat.zero_le _⟩
  | snoc hts hstep ih => exact ih.concat (((Inv.of_new? hnew).run hts.run).recorded hstep)

/-- Every look-up is counted once. -/
theorem countP_isLookup (ts : List Taken) :
    ts.countP Taken.isHit + ts.countP Taken.isMiss = ts.countP Taken.isLookup := by
  induction ts using List.reverseRecOn with
  | nil => rfl
  | append_singleton ts t ih =>
    have ht := t.toNat_isHit_add_isMiss
    rw [countP_concat, countP_concat, countP_concat]
    omega

/-! ### What a look-up and a call past the cache leave as it is -/

/-- A hit moves its entry to the end, and counts. -/
theorem Inv.session_of_hit (h : w.Inv stops) (hstep : Step stops w (.seek i text) w')
    (hmem : text ∈ w.session.cache.keys) :
    (∃ e ∈ w.session.cache.entries, e.text = text ∧ w'.session = { w.session with
      cache := { w.session.cache with
        entries := w.session.cache.entries.erase e ++ [e]
        hits := w.session.cache.hits + 1 } }) ∧
    w'.session.cache.keys = w.session.cache.keys.erase text ++ [text] := by
  obtain ⟨-, ⟨e, he, rfl, rfl⟩ | ⟨hmiss, -⟩⟩ := h.seek_cases hstep
  · exact ⟨⟨e, he, rfl, rfl⟩, h.coherent.keys_touch he⟩
  · exact absurd hmem hmiss

/-- A miss leaves the latest of the entries that were there and the new one, as many as there is
room for. -/
theorem Inv.session_of_miss (h : w.Inv stops) (hstep : Step stops w (.seek i text) w')
    (hmiss : text ∉ w.session.cache.keys) :
    w'.session.cache.entries <:+ w.session.cache.entries ++ [⟨text, w.session.cache.misses⟩] ∧
    w'.session.cache.keys <:+ w.session.cache.keys ++ [text] ∧
    w'.session.cache.size = w.session.cache.maxSize.room.elim (w.session.cache.size + 1)
      (min (w.session.cache.size + 1)) := by
  obtain ⟨-, ⟨e, he, rfl, -⟩ | ⟨-, rfl⟩⟩ := h.seek_cases hstep
  · exact absurd (List.mem_map_of_mem he) hmiss
  · have hsuffix := Cache.evict_suffix w.session.cache.maxSize
      (w.session.cache.entries ++ [⟨text, w.session.cache.misses⟩])
    refine ⟨hsuffix, ?_, ?_⟩
    · have hkeys := hsuffix.map Cache.Entry.text
      rw [List.map_append] at hkeys
      exact hkeys
    · show (Cache.evict _ _).length = _
      cases hroom : w.session.cache.maxSize.room with
      | none => simp [Cache.evict, hroom, Cache.size]
      | some n =>
        simp only [Cache.evict, hroom, Option.elim_some, Cache.latest, List.length_drop,
          List.length_append, List.length_singleton, Cache.size]
        omega

/-- The call whose step it is. -/
def Event.caller? : Event → Option ℕ
  | seek i _ | compiled i | release i | deliver i | receive i => some i
  | _ => none

/-- A new call leaves the session as it is; it starts to compile if the cache is off. -/
theorem Step.session_of_call (hstep : Step stops w (.call text) w') :
    w'.session = w.session ∧ (w.session.cache.enabled = false →
      w'.calls = w.calls ++ [⟨text, .compiling (.own w.calls.length)⟩]) := by
  cases hstep with
  | callOn _ on =>
    refine ⟨rfl, fun off => ?_⟩
    rw [on] at off
    cases off
  | callOff _ _ => exact ⟨rfl, fun _ => rfl⟩

/-- A call that passed the cache by ends with its next step, which leaves the session as it is; and
a call that has ended takes no further step. -/
theorem Step.of_caller (hstep : Step stops w e w') (hcaller : e.caller? = some i)
    (hcall : w.calls[i]? = some ⟨text, phase⟩) :
    (∀ j, phase = .compiling (.own j) →
      w'.session = w.session ∧ ∃ o, w'.calls[i]? = some ⟨text, .ended (.own j) o⟩) ∧
    ∀ k o, phase ≠ .ended k o := by
  cases hstep with
  | compileOwn is_call =>
    cases hcaller
    have hlt := (List.getElem?_eq_some_iff.1 hcall).1
    rw [hcall] at is_call
    cases is_call
    refine ⟨fun j hj => ?_, nofun⟩
    cases hj
    exact ⟨rfl, _, List.getElem?_set_self hlt⟩
  | join is_call _ | start is_call _ | compileOk is_call _ | compileError is_call _
  | release is_call | deliver is_call | receive is_call _ =>
    cases hcaller
    rw [hcall] at is_call
    cases is_call
    exact ⟨nofun, nofun⟩
  | callOn _ _ | callOff _ _ | clear | setEnabled _ | setMaxSize _ _ => cases hcaller

/-! ### The books -/

/-- **The counts and the entries of a cache tell what was done to it.**  After any steps, no two
entries have the same text, and there are no more of them than the size allowed that was in force
at the latest miss, or none if there was no miss.  Every look-up was counted once, as a hit or as a
miss.  Every miss and every call past the cache started one compilation, and no other step did; so
when all calls have ended, as many compilations have.  A hit moves its entry to the end and leaves
all else as it is; a miss leaves a tail of the old entries with the new one at the end; and a call
past the cache changes nothing at all. -/
theorem bookkeeping (hnew : Cache.new? size enabled = .ok cache)
    (hts : History stops (ofCache cache) ts w) :
    w.session.cache.keys.Nodup ∧
    (∀ n, roomAtLatestMiss ts = some n → w.session.cache.size ≤ n) ∧
    w.session.cache.hits = ts.countP Taken.isHit ∧
    w.session.cache.misses = ts.countP Taken.isMiss ∧
    w.session.cache.hits + w.session.cache.misses = ts.countP Taken.isLookup ∧
    begun ts w = w.session.cache.misses + ts.countP Taken.isBypass ∧
    (∀ e w', Step stops w e w' → begun (ts ++ [⟨w, e⟩]) w' =
      begun ts w + (Taken.isMiss ⟨w, e⟩).toNat + (Taken.isBypass ⟨w, e⟩).toNat) ∧
    (w.Idle → ts.countP Taken.isCompiled =
      w.session.cache.misses + ts.countP Taken.isBypass) ∧
    (∀ i text w', Step stops w (.seek i text) w' → text ∈ w.session.cache.keys →
      (∃ e ∈ w.session.cache.entries, e.text = text ∧ w'.session = { w.session with
        cache := { w.session.cache with
          entries := w.session.cache.entries.erase e ++ [e]
          hits := w.session.cache.hits + 1 } }) ∧
      w'.session.cache.keys = w.session.cache.keys.erase text ++ [text]) ∧
    (∀ i text w', Step stops w (.seek i text) w' → text ∉ w.session.cache.keys →
      w'.session.cache.entries <:+ w.session.cache.entries ++ [⟨text, w.session.cache.misses⟩] ∧
      w'.session.cache.keys <:+ w.session.cache.keys ++ [text] ∧
      w'.session.cache.size = w.session.cache.maxSize.room.elim (w.session.cache.size + 1)
        (min (w.session.cache.size + 1))) ∧
    ∀ e w', Step stops w e w' →
      (∀ text, e = .call text → w'.session = w.session ∧ (w.session.cache.enabled = false →
        w'.calls = w.calls ++ [⟨text, .compiling (.own w.calls.length)⟩])) ∧
      (∀ (i : ℕ) text j, w.calls[i]? = some ⟨text, .compiling (.own j)⟩ → e.caller? = some i →
        w'.session = w.session ∧ ∃ o, w'.calls[i]? = some ⟨text, .ended (.own j) o⟩) ∧
      ∀ (i : ℕ) text k o, w.calls[i]? = some ⟨text, .ended k o⟩ → e.caller? ≠ some i := by
  have hinv : w.Inv stops := (Inv.of_new? hnew).run hts.run
  have hbalanced : Balanced ts w := .of_history hnew hts
  have hbegun : begun ts w = w.session.cache.misses + ts.countP Taken.isBypass := by
    rw [hbalanced.misses]
    exact hbalanced.begun
  refine ⟨hinv.coherent.keys, hbalanced.size, hbalanced.hits, hbalanced.misses, ?_, hbegun, ?_, ?_,
    ?_, ?_, ?_⟩
  · rw [hbalanced.hits, hbalanced.misses, countP_isLookup]
  · intro e w' hstep
    exact (hinv.recorded hstep).begun ts
  · intro hidle
    rw [begun, total_eq_zero (fun _ _ => rfl) hidle] at hbegun
    exact hbegun
  · intro i text w' hstep hmem
    exact hinv.session_of_hit hstep hmem
  · intro i text w' hstep hmiss
    exact hinv.session_of_miss hstep hmiss
  · intro e w' hstep
    refine ⟨?_, fun i text j hown hcaller => ?_, fun i text k o hended hcaller => ?_⟩
    · rintro text rfl
      exact hstep.session_of_call
    · exact (hstep.of_caller hcaller hown).1 j rfl
    · exact (hstep.of_caller hcaller hended).2 k o rfl

/-- A text is looked up, and before it is compiled the size is set to zero; another one is looked
up, for which even its own entry has to make room; then the cache is turned off, and a third call
passes it by. -/
def shrunk : SharedSession where
  session :=
    { cache := ⟨[], .whole 0, false, 0, 2⟩
      jobs := [⟨"1.x", none⟩, ⟨"2.x", none⟩] }
  calls :=
    [⟨"1.x", .compiling (.shared 0)⟩, ⟨"2.x", .compiling (.shared 1)⟩, ⟨"1.x", .compiling (.own 2)⟩]

/-- Three compilations were started: one for each miss, and one past the cache. -/
theorem bookkeeping_shrunk :
    Cache.new? (.whole 1) true = .ok forOne ∧
    ∃ ts, History (fun _ => false) (ofCache forOne) ts shrunk ∧
      roomAtLatestMiss ts = some 0 ∧ shrunk.session.cache.size ≤ 0 ∧
      shrunk.session.cache.hits + shrunk.session.cache.misses = ts.countP Taken.isLookup ∧
      ts.countP Taken.isBypass = 1 ∧ begun ts shrunk = 2 + 1 := by
  have hnew : Cache.new? (.whole 1) true = .ok forOne := rfl
  have hts : History (fun _ => false) (ofCache forOne) _ shrunk :=
    .snoc (.snoc (.snoc (.snoc (.snoc (.snoc (.snoc .nil (.callOn "1.x" rfl))
      (@Step.start _ _ 0 0 "1.x" _ rfl rfl)) (.setMaxSize (.whole 0) rfl)) (.callOn "2.x" rfl))
      (@Step.start _ _ 1 1 "2.x" _ rfl rfl)) (.setEnabled false)) (.callOff "1.x" rfl)
  obtain ⟨-, hsize, -, -, hlookups, hbegun, -⟩ := bookkeeping hnew hts
  exact ⟨hnew, _, hts, rfl, hsize 0 rfl, hlookups, rfl, hbegun⟩

end SharedSession

end SemverRange
