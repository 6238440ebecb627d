import Mathlib.Data.Nat.Notation
import SemverRange.Cache.Session

/-!
# Calls that take turns

Any number of callers share a session.  A call sees whether the cache is on, looks its text up,
compiles it or waits for a compilation, gives the entry of a failed compilation back and makes
the outcome known, each in a step of its own; between any two of its steps, the other calls can
take theirs, and the cache can be cleared, turned on and off, and given another size.

A call is known by its number, and nothing is said about who makes it.  Calls from several
threads are calls like any other, and so is a call that is made from within a compilation: its
steps stand between the one in which that compilation starts and the one in which it ends.

Which compilations are interrupted is not for the session to decide.  It is given by a function
of the compilation, over which everything is quantified: a compilation ends once, so that any
pattern of interruptions is given by such a function.

## Main definitions

* `Compilation` — what compiles: a call for all that wait, or a call for itself alone.
* `Phase`, `Call`, `SharedSession` — where a call stands, and a session with its calls.
* `SharedSession.Event`, `SharedSession.Step`, `SharedSession.Run` — one step, and any number of
  steps of any calls.

That `Session.get`, `Session.getAll`, `Session.getTogether` and `Session.getAround` are such runs is
proved in `SemverRange.Proofs.Cache.Adequacy`.
-/

namespace SemverRange

/-- A compilation. -/
inductive Compilation
  /-- The one that a miss started under the number `job`, for all who ask for its text. -/
  | shared (job : ℕ)
  /-- The one that a call makes for itself alone, because the cache was off. -/
  | own (call : ℕ)
  deriving DecidableEq, Repr

/-- How the compilation of the text ends, when `stops` are interrupted. -/
def Compilation.outcome (stops : Compilation → Bool) (k : Compilation) (text : String) :
    Outcome :=
  if stops k then .error .interrupted else outcomeOf text

/-- A compilation that succeeds was not interrupted. -/
theorem Compilation.outcome_eq_ok_iff {stops : Compilation → Bool} {k : Compilation}
    {text : String} {c : Compiled} :
    k.outcome stops text = .ok c ↔ stops k = false ∧ compile text = .ok c := by
  rw [outcome, outcomeOf]
  cases stops k with
  | true => simp
  | false =>
    cases compile text with
    | error f =>
      refine iff_of_false ?_ ?_
      · intro h
        cases h
      · rintro ⟨-, h⟩
        cases h
    | ok c' =>
      refine ⟨fun h => ?_, fun h => ?_⟩
      · cases h
        exact ⟨rfl, rfl⟩
      · cases h.2
        rfl

/-- Where a call stands. -/
inductive Phase
  /-- It found the cache on, and has yet to look its text up. -/
  | arriving
  /-- It compiles its text. -/
  | compiling (k : Compilation)
  /-- Its compilation failed, and has yet to give its entry back. -/
  | failing (job : ℕ) (f : Cache.Fault)
  /-- Its compilation ended, and the outcome has yet to be made known. -/
  | delivering (job : ℕ) (o : Outcome)
  /-- It waits for the outcome of a compilation. -/
  | waiting (job : ℕ)
  /-- It ended with the outcome of a compilation. -/
  | ended (k : Compilation) (o : Outcome)

/-- The number of the compilation that a call in this phase has to bring to its end. -/
def Phase.job? : Phase → Option ℕ
  | compiling (.shared job) | failing job _ | delivering job _ => some job
  | _ => none

/-- A call with the text that it asks for. -/
structure Call where
  text : String
  phase : Phase

/-- A session with the calls that were made on it; a call's number is its place. -/
structure SharedSession where
  session : Session
  calls : List Call

namespace SharedSession

/-- The session with an empty cache and without calls. -/
def ofCache (cache : Cache) : SharedSession := { session := .ofCache cache, calls := [] }

/-- The session changed, and the call `i` in another phase. -/
def advance (w : SharedSession) (s : Session) (i : ℕ) (text : String) (phase : Phase) :
    SharedSession :=
  { session := s, calls := w.calls.set i ⟨text, phase⟩ }

/-- The number of the compilation that the call `i` has to bring to its end. -/
def job? (w : SharedSession) (i : ℕ) : Option ℕ := w.calls[i]?.bind (·.phase.job?)

/-- The call `i` has to bring the compilation `job` to its end. -/
def WorksOn (w : SharedSession) (i job : ℕ) : Prop := w.job? i = some job

/-- What happens in one step. -/
inductive Event
  /-- A call is made, and sees whether the cache is on. -/
  | call (text : String)
  /-- The call `i` looks its text up. -/
  | seek (i : ℕ) (text : String)
  /-- The compilation of the call `i` ends. -/
  | compiled (i : ℕ)
  /-- The call `i` gives back the entry of its failed compilation. -/
  | release (i : ℕ)
  /-- The call `i` makes the outcome of its compilation known. -/
  | deliver (i : ℕ)
  /-- The call `i` gets the outcome for which it waited. -/
  | receive (i : ℕ)
  /-- The cache is cleared. -/
  | clear
  /-- The cache is turned on or off. -/
  | setEnabled (enabled : Bool)
  /-- The cache gets another size. -/
  | setMaxSize (maxSize : Cache.Size)

/-- The steps.  No size is negative. -/
inductive Step (stops : Compilation → Bool) : SharedSession → Event → SharedSession → Prop
  /-- A call is made while the cache is on. -/
  | callOn {w : SharedSession} (text : String) (on : w.session.cache.enabled = true) :
      Step stops w (.call text) { w with calls := w.calls ++ [⟨text, .arriving⟩] }
  /-- A call is made while the cache is off, and starts to compile. -/
  | callOff {w : SharedSession} (text : String) (off : w.session.cache.enabled = false) :
      Step stops w (.call text)
        { w with calls := w.calls ++ [⟨text, .compiling (.own w.calls.length)⟩] }
  /-- A text is found. -/
  | join {w : SharedSession} {i job : ℕ} {text : String} {s : Session}
      (is_call : w.calls[i]? = some ⟨text, .arriving⟩)
      (found : w.session.seek text = (.join job, s)) :
      Step stops w (.seek i text) (w.advance s i text (.waiting job))
  /-- A text is not found, and the call starts to compile it. -/
  | start {w : SharedSession} {i job : ℕ} {text : String} {s : Session}
      (is_call : w.calls[i]? = some ⟨text, .arriving⟩)
      (found : w.session.seek text = (.start job, s)) :
      Step stops w (.seek i text) (w.advance s i text (.compiling (.shared job)))
  /-- A compilation ends that its call made for itself alone. -/
  | compileOwn {w : SharedSession} {i j : ℕ} {text : String}
      (is_call : w.calls[i]? = some ⟨text, .compiling (.own j)⟩) :
      Step stops w (.compiled i)
        (w.advance w.session i text (.ended (.own j) (Compilation.outcome stops (.own j) text)))
  /-- A compilation succeeds. -/
  | compileOk {w : SharedSession} {i job : ℕ} {text : String} {c : Compiled}
      (is_call : w.calls[i]? = some ⟨text, .compiling (.shared job)⟩)
      (ok : Compilation.outcome stops (.shared job) text = .ok c) :
      Step stops w (.compiled i) (w.advance w.session i text (.delivering job (.ok c)))
  /-- A compilation fails or is interrupted. -/
  | compileError {w : SharedSession} {i job : ℕ} {text : String} {f : Cache.Fault}
      (is_call : w.calls[i]? = some ⟨text, .compiling (.shared job)⟩)
      (error : Compilation.outcome stops (.shared job) text = .error f) :
      Step stops w (.compiled i) (w.advance w.session i text (.failing job f))
  /-- The entry of a failed compilation is given back, if it is still there. -/
  | release {w : SharedSession} {i job : ℕ} {text : String} {f : Cache.Fault}
      (is_call : w.calls[i]? = some ⟨text, .failing job f⟩) :
      Step stops w (.release i)
        (w.advance (w.session.release text job) i text (.delivering job (.error f)))
  /-- An outcome is made known. -/
  | deliver {w : SharedSession} {i job : ℕ} {text : String} {o : Outcome}
      (is_call : w.calls[i]? = some ⟨text, .delivering job o⟩) :
      Step stops w (.deliver i)
        (w.advance (w.session.deliver job o) i text (.ended (.shared job) o))
  /-- A call gets the outcome for which it waited. -/
  | receive {w : SharedSession} {i job : ℕ} {text : String} {o : Outcome}
      (is_call : w.calls[i]? = some ⟨text, .waiting job⟩)
      (known : w.session.outcome? job = some o) :
      Step stops w (.receive i) (w.advance w.session i text (.ended (.shared job) o))
  /-- The cache is cleared. -/
  | clear {w : SharedSession} :
      Step stops w .clear { w with session := w.session.mapCache Cache.clear }
  /-- The cache is turned on or off. -/
  | setEnabled {w : SharedSession} (enabled : Bool) :
      Step stops w (.setEnabled enabled)
        { w with session := w.session.mapCache (·.setEnabled enabled) }
  /-- The cache gets another size. -/
  | setMaxSize {w : SharedSession} (maxSize : Cache.Size)
      (not_negative : maxSize.isNegative = false) :
      Step stops w (.setMaxSize maxSize)
        { w with session := w.session.mapCache (·.setMaxSize maxSize) }

/-- Any number of steps that start at `w`. -/
inductive Run (stops : Compilation → Bool) (w : SharedSession) :
    List Event → SharedSession → Prop
  | nil : Run stops w [] w
  | snoc {w' w'' : SharedSession} {es : List Event} {e : Event} :
      Run stops w es w' → Step stops w' e w'' → Run stops w (es ++ [e]) w''

end SharedSession

end SemverRange
