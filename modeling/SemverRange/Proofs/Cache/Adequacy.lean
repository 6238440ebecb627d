import SemverRange.Proofs.Cache.Ownership

/-!
# Computed calls are runs

`Session.get`, `Session.getAll` and `Session.getAround` take all steps of one call, of several
calls one after the other, and of a call with others made from within it; `Session.getTogether`
lets several calls look a text up before any of them goes on.  The calls of a shared session can
take their steps in that order, and they end as is computed.  So what holds of all runs holds of
what is computed.

## Main results

* `SharedSession.exists_run_get`, `SharedSession.exists_run_satisfies` — one call is a run.
* `SharedSession.exists_run_getAll` — calls one after the other are a run.
* `SharedSession.exists_run_getTogether` — **calls that all look up first are a run**.
* `SharedSession.exists_run_getAround` — **a call with others made from within it is a run**.
-/

namespace SemverRange

open Session

/-- The phase in which a look-up leaves the call `i`. -/
def Cache.Lookup.phase (i : ℕ) : Cache.Lookup → Phase
  | bypass => .compiling (.own i)
  | join job => .waiting job
  | start job => .compiling (.shared job)
  | overdrawn => .arriving

/-- The outcome with which a call ended. -/
def Phase.outcome? : Phase → Option Outcome
  | ended _ o => some o
  | _ => none

/-- A call's text, and how it ended. -/
def Call.result (c : Call) : String × Option Outcome := (c.text, c.phase.outcome?)

/-- The call compiles its text. -/
def Call.isCompiling (c : Call) : Bool :=
  match c.phase with
  | .compiling _ => true
  | _ => false

/-! ### What a call leaves as it is -/

namespace Session

variable {s : Session} {text : String}

theorem maxSize_enter (s : Session) (text : String) :
    (s.enter text).2.cache.maxSize = s.cache.maxSize := by
  rw [enter, seek, Cache.seek]
  cases s.cache.enabled <;> cases s.cache.entries.find? (·.text = text) <;>
    cases s.cache.maxSize.isNegative <;> rfl

theorem misses_le_enter (s : Session) (text : String) :
    s.cache.misses ≤ (s.enter text).2.cache.misses := by
  rw [enter, seek, Cache.seek]
  cases s.cache.enabled <;> cases s.cache.entries.find? (·.text = text) <;>
    cases s.cache.maxSize.isNegative <;>
    first | exact Nat.le_refl _ | exact Nat.le_succ _

theorem cache_finish (s : Session) (text : String) (job : ℕ) (o : Outcome) :
    (s.finish text job o).cache.maxSize = s.cache.maxSize ∧
      (s.finish text job o).cache.misses = s.cache.misses := by
  cases o <;> exact ⟨rfl, rfl⟩

/-- A call changes the cache as its look-up does, but for the entries. -/
theorem cache_get (s : Session) (text : String) :
    (s.get text).2.cache.maxSize = (s.enter text).2.cache.maxSize ∧
      (s.get text).2.cache.misses = (s.enter text).2.cache.misses := by
  rw [get]
  rcases s.enter text with ⟨l, s'⟩
  cases l with
  | start job => exact cache_finish s' text job _
  | _ => exact ⟨rfl, rfl⟩

theorem maxSize_get (s : Session) (text : String) :
    (s.get text).2.cache.maxSize = s.cache.maxSize :=
  (cache_get s text).1.trans (maxSize_enter s text)

theorem misses_le_get (s : Session) (text : String) :
    s.cache.misses ≤ (s.get text).2.cache.misses := by
  rw [(cache_get s text).2]
  exact misses_le_enter s text

/-- A compilation that a look-up starts has the number of the misses before it. -/
theorem misses_of_enter {n : ℕ} {s' : Session} (h : s.enter text = (.start n, s')) :
    n = s.cache.misses ∧ s'.cache.misses = n + 1 := by
  rw [enter, seek, Cache.seek] at h
  cases hon : s.cache.enabled <;> cases hfound : s.cache.entries.find? (·.text = text) <;>
    cases hsize : s.cache.maxSize.isNegative <;> simp only [hon, hfound, hsize] at h <;> cases h
  exact ⟨rfl, rfl⟩

/-- A call does not fail to be completed. -/
theorem enter_ne_overdrawn (hsize : s.cache.maxSize.isNegative = false) (s' : Session) :
    s.enter text ≠ (.overdrawn, s') := by
  rw [enter, seek, Cache.seek]
  cases s.cache.enabled <;> cases s.cache.entries.find? (·.text = text) <;> simp [hsize]

end Session

/-! ### Runs -/

namespace SharedSession

variable {stops : Compilation → Bool} {w w' w'' : SharedSession} {s s' : Session}
  {cs cs' : List Call} {es es' : List Event} {text : String} {phase phase' : Phase} {n : ℕ}
  {o : Outcome}

theorem Run.trans (h : Run stops w es w') (h' : Run stops w' es' w'') :
    Run stops w (es ++ es') w'' := by
  induction h' with
  | nil => rwa [List.append_nil]
  | snoc _ hstep ih =>
    rw [← List.append_assoc]
    exact ih.snoc hstep

/-- The call after `cs`. -/
theorem getElem?_append_cons (c : Call) : (cs ++ c :: cs')[cs.length]? = some c := by
  rw [List.getElem?_append_right (Nat.le_refl _), Nat.sub_self]
  rfl

theorem advance_append_cons (c : Call) :
    (⟨s, cs ++ c :: cs'⟩ : SharedSession).advance s' cs.length text phase =
      ⟨s', cs ++ ⟨text, phase⟩ :: cs'⟩ := by
  rw [advance, List.set_append_right _ _ (Nat.le_refl _), Nat.sub_self]
  rfl

/-- A call is made, and looks its text up if the cache is on. -/
theorem exists_run_enter (stops : Compilation → Bool) (text : String)
    (hsize : w.session.cache.maxSize.isNegative = false) :
    ∃ es, Run stops w es ⟨(w.session.enter text).2,
      w.calls ++ [⟨text, (w.session.enter text).1.phase w.calls.length⟩]⟩ := by
  rw [enter]
  cases hon : w.session.cache.enabled with
  | false => exact ⟨_, .snoc .nil (.callOff text hon)⟩
  | true =>
    rw [if_pos rfl]
    have hrun : Run stops w _ _ := .snoc .nil (.callOn text hon)
    cases hfound : w.session.cache.entries.find? (·.text = text) with
    | none =>
      have hseek := (seek_eq_start_iff hsize).2 ⟨hfound, rfl, rfl⟩
      have hstep : Step stops ⟨w.session, w.calls ++ [⟨text, .arriving⟩]⟩ (.seek _ text) _ :=
        .start (getElem?_append_cons _) hseek
      rw [advance_append_cons] at hstep
      rw [hseek]
      exact ⟨_, hrun.snoc hstep⟩
    | some e =>
      have hseek := seek_eq_join_iff.2 ⟨e, hfound, rfl, rfl⟩
      have hstep : Step stops ⟨w.session, w.calls ++ [⟨text, .arriving⟩]⟩ (.seek _ text) _ :=
        .join (getElem?_append_cons _) hseek
      rw [advance_append_cons] at hstep
      rw [hseek]
      exact ⟨_, hrun.snoc hstep⟩

/-- The compilation of a call ends, and its outcome is made known. -/
theorem exists_run_finish (s : Session) (cs cs' : List Call)
    (ho : Compilation.outcome stops (.shared n) text = o) :
    ∃ es, Run stops ⟨s, cs ++ ⟨text, .compiling (.shared n)⟩ :: cs'⟩ es
      ⟨s.finish text n o, cs ++ ⟨text, .ended (.shared n) o⟩ :: cs'⟩ := by
  cases o with
  | ok c =>
    have hcompile : Step stops ⟨s, cs ++ ⟨text, .compiling (.shared n)⟩ :: cs'⟩ (.compiled _) _ :=
      .compileOk (getElem?_append_cons _) ho
    rw [advance_append_cons] at hcompile
    have hdeliver : Step stops ⟨s, cs ++ ⟨text, .delivering n (.ok c)⟩ :: cs'⟩ (.deliver _) _ :=
      .deliver (getElem?_append_cons _)
    rw [advance_append_cons] at hdeliver
    exact ⟨_, .snoc (.snoc .nil hcompile) hdeliver⟩
  | error f =>
    have hcompile : Step stops ⟨s, cs ++ ⟨text, .compiling (.shared n)⟩ :: cs'⟩ (.compiled _) _ :=
      .compileError (getElem?_append_cons _) ho
    rw [advance_append_cons] at hcompile
    have hrelease : Step stops ⟨s, cs ++ ⟨text, .failing n f⟩ :: cs'⟩ (.release _) _ :=
      .release (getElem?_append_cons _)
    rw [advance_append_cons] at hrelease
    have hdeliver : Step stops ⟨s.release text n, cs ++ ⟨text, .delivering n (.error f)⟩ :: cs'⟩
        (.deliver _) _ := .deliver (getElem?_append_cons _)
    rw [advance_append_cons] at hdeliver
    exact ⟨_, .snoc (.snoc (.snoc .nil hcompile) hrelease) hdeliver⟩

/-- A call ends that compiles for itself alone. -/
theorem exists_run_own (s : Session) (cs cs' : List Call) (j : ℕ)
    (ho : Compilation.outcome stops (.own j) text = o) :
    ∃ es, Run stops ⟨s, cs ++ ⟨text, .compiling (.own j)⟩ :: cs'⟩ es
      ⟨s, cs ++ ⟨text, .ended (.own j) o⟩ :: cs'⟩ := by
  have hcompile : Step stops ⟨s, cs ++ ⟨text, .compiling (.own j)⟩ :: cs'⟩ (.compiled _) _ :=
    .compileOwn (getElem?_append_cons _)
  rw [advance_append_cons, ho] at hcompile
  exact ⟨_, .snoc .nil hcompile⟩

/-- A call that waits ends if the outcome is there, and waits on if not. -/
theorem exists_run_waiting (stops : Compilation → Bool) (s : Session) (cs cs' : List Call)
    (text : String) (n : ℕ) :
    ∃ es phase, Run stops ⟨s, cs ++ ⟨text, .waiting n⟩ :: cs'⟩ es ⟨s, cs ++ ⟨text, phase⟩ :: cs'⟩ ∧
      phase.outcome? = s.outcome? n := by
  cases ho : s.outcome? n with
  | none => exact ⟨[], .waiting n, .nil, rfl⟩
  | some o =>
    have hreceive : Step stops ⟨s, cs ++ ⟨text, .waiting n⟩ :: cs'⟩ (.receive _) _ :=
      .receive (getElem?_append_cons _) ho
    rw [advance_append_cons] at hreceive
    exact ⟨_, _, .snoc .nil hreceive, rfl⟩

/-- The compilation that the next call can start ends as given. -/
def EndsAs (stops : Compilation → Bool) (w : SharedSession) (text : String) (o : Outcome) : Prop :=
  Compilation.outcome stops (.own w.calls.length) text = o ∧
    Compilation.outcome stops (.shared w.session.cache.misses) text = o

/-- **One call is a run.** -/
theorem exists_run_get (hsize : w.session.cache.maxSize.isNegative = false)
    (hends : EndsAs stops w text (outcomeOf text)) :
    ∃ es phase, Run stops w es ⟨(w.session.get text).2, w.calls ++ [⟨text, phase⟩]⟩ ∧
      phase.outcome? = (w.session.get text).1 := by
  obtain ⟨es, hrun⟩ := exists_run_enter stops text hsize
  rw [Session.get]
  cases henter : w.session.enter text with
  | mk l s =>
    rw [henter] at hrun
    cases l with
    | bypass =>
      obtain ⟨es', hown⟩ := exists_run_own s w.calls [] w.calls.length hends.1
      exact ⟨_, _, hrun.trans hown, rfl⟩
    | join n =>
      obtain ⟨es', phase, hwaiting, hphase⟩ := exists_run_waiting stops s w.calls [] text n
      exact ⟨_, phase, hrun.trans hwaiting, hphase⟩
    | start n =>
      obtain ⟨rfl, -⟩ := misses_of_enter henter
      obtain ⟨es', hfinish⟩ := exists_run_finish s w.calls [] hends.2
      exact ⟨_, _, hrun.trans hfinish, rfl⟩
    | overdrawn => exact absurd henter (enter_ne_overdrawn hsize s)

/-- A version is tried in one call, in which the text is asked for. -/
theorem exists_run_satisfies (version : Except Fault Version)
    (hsize : w.session.cache.maxSize.isNegative = false)
    (hends : EndsAs stops w text (outcomeOf text)) :
    ∃ es phase, Run stops w es ⟨(w.session.satisfies text version).2, w.calls ++ [⟨text, phase⟩]⟩ ∧
      phase.outcome?.map (Outcome.satisfies · version) = (w.session.satisfies text version).1 := by
  obtain ⟨es, phase, hrun, hphase⟩ := exists_run_get hsize hends
  exact ⟨es, phase, hrun, congrArg (Option.map (Outcome.satisfies · version)) hphase⟩

/-- No compilation is interrupted that a call after the given ones starts. -/
structure Spares (stops : Compilation → Bool) (calls misses : ℕ) : Prop where
  /-- None that a call makes for itself alone. -/
  own : ∀ j, calls ≤ j → stops (.own j) = false
  /-- None that a miss starts. -/
  shared : ∀ n, misses ≤ n → stops (.shared n) = false

theorem Spares.mono {calls misses calls' misses' : ℕ} (h : Spares stops calls misses)
    (hcalls : calls ≤ calls') (hmisses : misses ≤ misses') : Spares stops calls' misses' :=
  ⟨fun j hj => h.own j (Nat.le_trans hcalls hj), fun n hn => h.shared n (Nat.le_trans hmisses hn)⟩

theorem Spares.endsAs (h : Spares stops w.calls.length w.session.cache.misses) (text : String) :
    EndsAs stops w text (outcomeOf text) := by
  rw [EndsAs, Compilation.outcome, Compilation.outcome, h.own _ (Nat.le_refl _),
    h.shared _ (Nat.le_refl _)]
  exact ⟨rfl, rfl⟩

/-- **Calls one after the other are a run.** -/
theorem exists_run_getAll (texts : List String)
    (hsize : w.session.cache.maxSize.isNegative = false)
    (hspares : Spares stops w.calls.length w.session.cache.misses) :
    ∃ es cs, Run stops w es ⟨(w.session.getAll texts).2, w.calls ++ cs⟩ ∧
      cs.map Call.result = texts.zip (w.session.getAll texts).1 := by
  induction texts generalizing w with
  | nil =>
    refine ⟨[], [], ?_, rfl⟩
    rw [List.append_nil]
    exact .nil
  | cons text texts ih =>
    obtain ⟨es, phase, hget, hphase⟩ := exists_run_get hsize (hspares.endsAs text)
    have hlen : w.calls.length ≤ (w.calls ++ [(⟨text, phase⟩ : Call)]).length :=
      (List.sublist_append_left _ _).length_le
    obtain ⟨es', cs, hgetAll, hcs⟩ := ih (w := ⟨(w.session.get text).2, _⟩)
      ((maxSize_get w.session text).symm ▸ hsize)
      (hspares.mono hlen (misses_le_get w.session text))
    rw [List.append_assoc] at hgetAll
    refine ⟨es ++ es', ⟨text, phase⟩ :: cs, hget.trans hgetAll, ?_⟩
    rw [List.map_cons, hcs, getAll, List.zip_cons_cons, Call.result, hphase]

/-! ### Calls that all look up first -/

/-- The call with the number `x.2`, as its look-up leaves it. -/
def entered (text : String) (x : Cache.Lookup × ℕ) : Call := ⟨text, x.1.phase x.2⟩

/-- The same call, once the compilation that its look-up started has ended. -/
def compiled (text : String) (x : Cache.Lookup × ℕ) : Call :=
  match x.1 with
  | .start job => ⟨text, .ended (.shared job) (outcomeOf text)⟩
  | _ => entered text x

/-- As many calls compile as look-ups make their callers compile. -/
theorem countP_entered (found : List Cache.Lookup) (i : ℕ) :
    ((found.zipIdx i).map (entered text)).countP Call.isCompiling = found.countP compiles := by
  have hcompiles : Call.isCompiling ∘ entered text = compiles ∘ Prod.fst := by
    funext ⟨l, i⟩
    cases l <;> rfl
  rw [List.countP_map, hcompiles, ← List.countP_map, List.zipIdx_map_fst]

theorem length_enterAll (s : Session) (texts : List String) :
    (s.enterAll texts).1.length = texts.length := by
  induction texts generalizing s with
  | nil => rfl
  | cons text texts ih => exact congrArg Nat.succ (ih (s.enter text).2)

/-- Each of the calls is made, and looks the text up. -/
theorem exists_run_enterAll (stops : Compilation → Bool) (text : String) (k : ℕ)
    (hsize : w.session.cache.maxSize.isNegative = false) :
    ∃ es, Run stops w es ⟨(w.session.enterAll (List.replicate k text)).2,
      w.calls ++ ((w.session.enterAll (List.replicate k text)).1.zipIdx w.calls.length).map
        (entered text)⟩ := by
  induction k generalizing w with
  | zero =>
    refine ⟨[], ?_⟩
    rw [List.replicate_zero, enterAll, List.zipIdx_nil, List.map_nil, List.append_nil]
    exact .nil
  | succ k ih =>
    obtain ⟨es, henter⟩ := exists_run_enter stops text hsize
    obtain ⟨es', hothers⟩ := ih
      (w := ⟨(w.session.enter text).2, w.calls ++ [entered text (_, w.calls.length)]⟩)
      ((maxSize_enter w.session text).symm ▸ hsize)
    rw [List.append_assoc, List.length_append, List.length_singleton] at hothers
    exact ⟨es ++ es', henter.trans hothers⟩

/-- The look-ups start new compilations. -/
theorem misses_le_of_start_mem (s : Session) {job : ℕ} (texts : List String)
    (h : .start job ∈ (s.enterAll texts).1) : s.cache.misses ≤ job := by
  induction texts generalizing s with
  | nil => cases h
  | cons text texts ih =>
    rcases List.mem_cons.1 h with heq | hmem
    · exact Nat.le_of_eq (misses_of_enter (Prod.ext heq.symm rfl)).1.symm
    · exact Nat.le_trans (misses_le_enter s text) (ih _ hmem)

theorem overdrawn_notMem_enterAll (texts : List String)
    (hsize : s.cache.maxSize.isNegative = false) : .overdrawn ∉ (s.enterAll texts).1 := by
  induction texts generalizing s with
  | nil => exact List.not_mem_nil
  | cons text texts ih =>
    intro hmem
    rcases List.mem_cons.1 hmem with heq | hmem
    · exact enter_ne_overdrawn hsize _ (Prod.ext heq.symm rfl)
    · exact ih ((maxSize_enter s text).symm ▸ hsize) hmem

/-- The compilations that the look-ups started end in their order. -/
theorem exists_run_finishAll (s : Session) (cs : List Call) (text : String)
    {found : List Cache.Lookup} (hgo : ∀ job, .start job ∈ found → stops (.shared job) = false) :
    ∃ es, Run stops ⟨s, cs ++ (found.zipIdx cs.length).map (entered text)⟩ es
      ⟨s.finishAll text found, cs ++ (found.zipIdx cs.length).map (compiled text)⟩ := by
  induction found generalizing s cs with
  | nil => exact ⟨[], .nil⟩
  | cons l found ih =>
    have hothers (s : Session) := ih s (cs ++ [compiled text (l, cs.length)])
      fun job hjob => hgo job (List.mem_cons_of_mem l hjob)
    simp only [List.append_assoc, List.length_append, List.length_singleton,
      List.singleton_append] at hothers
    rw [List.zipIdx_cons, List.map_cons, List.map_cons]
    cases l with
    | start job =>
      have ho : Compilation.outcome stops (.shared job) text = outcomeOf text := by
        rw [Compilation.outcome, hgo job List.mem_cons_self]
        rfl
      obtain ⟨es, hfinish⟩ := exists_run_finish s cs _ ho
      obtain ⟨es', hrun⟩ := hothers (s.finish text job (outcomeOf text))
      exact ⟨es ++ es', hfinish.trans hrun⟩
    | _ => exact hothers s

/-- The calls that compile for themselves end, and so do those that wait for an outcome that is
known. -/
theorem exists_run_endAll (cs : List Call) {found : List Cache.Lookup}
    (hgo : ∀ i, cs.length ≤ i → stops (.own i) = false) (hdrawn : .overdrawn ∉ found)
    (hstart : ∀ job, .start job ∈ found → s.outcome? job = some (outcomeOf text)) :
    ∃ es cs', Run stops ⟨s, cs ++ (found.zipIdx cs.length).map (compiled text)⟩ es
        ⟨s, cs ++ cs'⟩ ∧
      cs'.map Call.result = found.map fun l => (text, s.outcomeAfter text l) := by
  induction found generalizing cs with
  | nil => exact ⟨[], [], .nil, rfl⟩
  | cons l found ih =>
    -- the call in front ends first, as it has to
    obtain ⟨es, phase, hfirst, hphase⟩ : ∃ es phase,
        Run stops ⟨s, cs ++ ((l :: found).zipIdx cs.length).map (compiled text)⟩ es
          ⟨s, cs ++ ⟨text, phase⟩ :: (found.zipIdx (cs.length + 1)).map (compiled text)⟩ ∧
        phase.outcome? = s.outcomeAfter text l := by
      rw [List.zipIdx_cons, List.map_cons]
      cases l with
      | bypass =>
        have ho : Compilation.outcome stops (.own cs.length) text = outcomeOf text := by
          rw [Compilation.outcome, hgo _ (Nat.le_refl _)]
          rfl
        obtain ⟨es, hown⟩ := exists_run_own s cs _ cs.length ho
        exact ⟨es, _, hown, rfl⟩
      | join job => exact exists_run_waiting stops s cs _ text job
      | start job => exact ⟨[], _, .nil, (hstart job List.mem_cons_self).symm⟩
      | overdrawn => exact absurd List.mem_cons_self hdrawn
    have hlen : (cs ++ [(⟨text, phase⟩ : Call)]).length = cs.length + 1 := List.length_append
    obtain ⟨es', cs', hothers, hcs'⟩ := ih (cs ++ [⟨text, phase⟩])
      (fun i hi => hgo i (by omega)) (fun hmem => hdrawn (List.mem_cons_of_mem l hmem))
      fun job hjob => hstart job (List.mem_cons_of_mem l hjob)
    rw [hlen, List.append_assoc, List.append_assoc] at hothers
    refine ⟨es ++ es', ⟨text, phase⟩ :: cs', hfirst.trans hothers, ?_⟩
    rw [List.map_cons, List.map_cons, hcs', Call.result, hphase]

/-- **Calls that all look up before any of them goes on are a run.**  First they are made, and as
many of them compile as is counted; then they end as is computed. -/
theorem exists_run_getTogether (h : w.Inv stops) (text : String) (k : ℕ)
    (hspares : Spares stops w.calls.length w.session.cache.misses) :
    ∃ es es' s cs cs',
      Run stops w es ⟨s, w.calls ++ cs⟩ ∧ cs.length = k ∧
      cs.countP Call.isCompiling = (w.session.getTogether text k).1.compilations ∧
      Run stops ⟨s, w.calls ++ cs⟩ es' ⟨(w.session.getTogether text k).2, w.calls ++ cs'⟩ ∧
      cs'.map Call.result = (w.session.getTogether text k).1.outcomes.map (Prod.mk text) := by
  obtain ⟨es, henter⟩ := exists_run_enterAll stops text k h.coherent.size
  rw [getTogether]
  have hlength := length_enterAll w.session (List.replicate k text)
  have hmisses {job : ℕ} (hjob : .start job ∈ (w.session.enterAll (List.replicate k text)).1) :=
    misses_le_of_start_mem w.session (List.replicate k text) hjob
  have hdrawn := overdrawn_notMem_enterAll (List.replicate k text) h.coherent.size
  cases hfound : w.session.enterAll (List.replicate k text) with
  | mk found s =>
    rw [hfound] at henter hlength hmisses hdrawn
    obtain ⟨es₁, hfinish⟩ := exists_run_finishAll s w.calls text
      fun job hjob => hspares.shared job (hmisses hjob)
    -- a call that compiled its text fits what is known of the session, so its outcome is known
    have hinv := (h.run henter).run hfinish
    have hstart (job : ℕ) (hjob : .start job ∈ found) :
        (s.finishAll text found).outcome? job = some (outcomeOf text) := by
      rw [← List.zipIdx_map_fst w.calls.length found] at hjob
      obtain ⟨⟨l, i⟩, hx, rfl⟩ := List.mem_map.1 hjob
      obtain ⟨j, hj⟩ := List.getElem?_of_mem
        (List.mem_append_right w.calls (List.mem_map_of_mem (f := compiled text) hx))
      exact (hinv.fits j _ _ hj).2
    obtain ⟨es₂, cs', hend, hcs'⟩ := exists_run_endAll w.calls hspares.own hdrawn hstart
    refine ⟨es, es₁ ++ es₂, s, _, cs', henter, ?_, ?_, hfinish.trans hend, ?_⟩
    · rw [List.length_map, List.length_zipIdx, hlength, List.length_replicate]
    · exact countP_entered found w.calls.length
    · rw [hcs', List.map_map]
      rfl

/-! ### Calls from within a call -/

/-- A call looks its text up, and others are made before it goes on. -/
theorem exists_run_inner {l : Cache.Lookup} (inner : List String)
    (henter : w.session.enter text = (l, s))
    (hsize : w.session.cache.maxSize.isNegative = false)
    (hspares : Spares stops (w.calls.length + 1) s.cache.misses) :
    ∃ es cs, Run stops w es
        ⟨(s.getAll inner).2, w.calls ++ ⟨text, l.phase w.calls.length⟩ :: cs⟩ ∧
      cs.map Call.result = inner.zip (s.getAll inner).1 := by
  obtain ⟨es, hrun⟩ := exists_run_enter stops text hsize
  have hsize' := maxSize_enter w.session text
  rw [henter] at hrun hsize'
  rw [← hsize'] at hsize
  rw [← List.length_singleton (a := Call.mk text (l.phase w.calls.length)),
    ← List.length_append] at hspares
  obtain ⟨es', cs, hgetAll, hcs⟩ := exists_run_getAll (w := ⟨s, _⟩) inner hsize hspares
  rw [List.append_assoc] at hgetAll
  exact ⟨es ++ es', cs, hrun.trans hgetAll, hcs⟩

/-- The only compilation that is interrupted is the given one, if any. -/
def stopping (k : Compilation) (interrupted : Bool) : Compilation → Bool :=
  fun k' => interrupted && decide (k' = k)

theorem outcome_stopping_self (k : Compilation) (interrupted : Bool) (text : String) :
    k.outcome (stopping k interrupted) text =
      if interrupted then .error .interrupted else outcomeOf text := by
  rw [Compilation.outcome, stopping, decide_eq_true rfl, Bool.and_true]

theorem stopping_of_ne {k k' : Compilation} (h : k' ≠ k) (interrupted : Bool) :
    stopping k interrupted k' = false := by
  rw [stopping, decide_eq_false h, Bool.and_false]

theorem spares_stopping_own (j misses : ℕ) (interrupted : Bool) :
    Spares (stopping (.own j) interrupted) (j + 1) misses := by
  refine ⟨fun j' hj => stopping_of_ne ?_ _, fun n _ => stopping_of_ne (by simp) _⟩
  rintro ⟨⟩
  exact Nat.not_succ_le_self j hj

theorem spares_stopping_shared (n calls : ℕ) (interrupted : Bool) :
    Spares (stopping (.shared n) interrupted) calls (n + 1) := by
  refine ⟨fun j _ => stopping_of_ne (by simp) _, fun n' hn => stopping_of_ne ?_ _⟩
  rintro ⟨⟩
  exact Nat.not_succ_le_self n hn

/-- **A call with others made from within it is a run**, in which the compilation that the call
may start is interrupted or not. -/
theorem exists_run_getAround (w : SharedSession) (text : String) (inner : List String)
    (interrupted : Bool) (hsize : w.session.cache.maxSize.isNegative = false) :
    ∃ stops es phase cs,
      Run stops w es ⟨(w.session.getAround text inner interrupted).2,
        w.calls ++ ⟨text, phase⟩ :: cs⟩ ∧
      phase.outcome? = (w.session.getAround text inner interrupted).1.outcome ∧
      cs.map Call.result = inner.zip (w.session.getAround text inner interrupted).1.inner := by
  rw [getAround]
  cases henter : w.session.enter text with
  | mk l s =>
    cases l with
    | bypass =>
      obtain ⟨es, cs, hrun, hcs⟩ := exists_run_inner inner henter hsize
        (spares_stopping_own w.calls.length s.cache.misses interrupted)
      obtain ⟨es', hown⟩ := exists_run_own (s.getAll inner).2 w.calls cs w.calls.length
        (outcome_stopping_self (.own w.calls.length) interrupted text)
      exact ⟨_, _, _, cs, hrun.trans hown, rfl, hcs⟩
    | join n =>
      obtain ⟨es, hrun⟩ := exists_run_enter (fun _ => false) text hsize
      rw [henter] at hrun
      obtain ⟨es', phase, hwaiting, hphase⟩ := exists_run_waiting _ s w.calls [] text n
      exact ⟨_, _, phase, [], hrun.trans hwaiting, hphase, List.zip_nil_right.symm⟩
    | start n =>
      have hspares := spares_stopping_shared n (w.calls.length + 1) interrupted
      rw [← (misses_of_enter henter).2] at hspares
      obtain ⟨es, cs, hrun, hcs⟩ := exists_run_inner inner henter hsize hspares
      obtain ⟨es', hfinish⟩ := exists_run_finish (s.getAll inner).2 w.calls cs
        (outcome_stopping_self (.shared n) interrupted text)
      exact ⟨_, _, _, cs, hrun.trans hfinish, rfl, hcs⟩
    | overdrawn => exact absurd henter (enter_ne_overdrawn hsize s)

end SharedSession

end SemverRange
