import SemverRange.Cache.Basic
import SemverRange.Compiled

/-!
# Compilations behind a cache

A session is a cache together with the compilations that its misses started, each with
its outcome as soon as it has one.  Whoever finds an entry gets the outcome of its
compilation, and waits for it if need be; whoever makes an entry compiles the text and
hands the outcome to all who wait.  A compilation that fails gives its entry back before
anyone hears of it.

The steps `seek`, `release` and `deliver` are the ones that cannot be interrupted; any
number of callers can take theirs in turns.  Whether the cache is on is seen before, in a
step of its own, which `enter` takes together with `seek`.  `get` takes all steps of one caller in a
row, `getTogether` lets several callers enter before any of them goes on, and
`getAround` lets a caller come back to the cache while it is compiling.

## Main definitions

* `Job`, `Session` — a compilation, and a cache with its compilations.
* `Session.seek`, `Session.release`, `Session.deliver` — the steps of a caller.
* `Session.get`, `Session.getTogether`, `Session.getAround` — one call, several at once,
  and calls from within a call.
-/

namespace SemverRange

/-- How a compilation ends. -/
abbrev Outcome := Except Cache.Fault Compiled

/-- The compilation that a text calls for, when nothing interrupts it. -/
def outcomeOf (text : String) : Outcome := (compile text).mapError .ofFormula

/-- The version satisfies the compiled formula; the version comes from `version`, which may
fail, but not before the compilation does. -/
def Outcome.satisfies (o : Outcome) (version : Except Fault Version) : Except Cache.Fault Bool := do
  let c ← o
  (do c.dnf.satisfies (← version)).mapError .ofFormula

/-- A compilation that a miss started. -/
structure Job where
  /-- The text that is compiled. -/
  text : String
  /-- How the compilation ended, if it did. -/
  outcome : Option Outcome

/-- A cache with the compilations that its misses started. -/
structure Session where
  cache : Cache
  /-- The compilations; a compilation's number is its place. -/
  jobs : List Job

namespace Session

/-- The session that starts with an empty cache. -/
def ofCache (cache : Cache) : Session := { cache, jobs := [] }

/-- The session with its cache changed. -/
def mapCache (s : Session) (f : Cache → Cache) : Session := { s with cache := f s.cache }

/-- How the compilation with the given number ended. -/
def outcome? (s : Session) (job : Nat) : Option Outcome := s.jobs[job]?.bind Job.outcome

/-- A caller who found the cache turned on looks the text up.  A miss starts a
compilation. -/
def seek (s : Session) (text : String) : Cache.Lookup × Session :=
  match s.cache.seek text with
  | (.start job, cache) => (.start job, { cache, jobs := s.jobs ++ [⟨text, none⟩] })
  | (.overdrawn, cache) =>
    (.overdrawn, { cache, jobs := s.jobs ++ [⟨text, some (.error .overdrawn)⟩] })
  | (found, cache) => (found, { s with cache })

/-- A caller sees whether the cache is on, and looks the text up if it is. -/
def enter (s : Session) (text : String) : Cache.Lookup × Session :=
  if s.cache.enabled then s.seek text else (.bypass, s)

/-- A failed compilation gives its entry back. -/
def release (s : Session) (text : String) (job : Nat) : Session :=
  s.mapCache (·.release text job)

/-- A compilation makes its outcome known. -/
def deliver (s : Session) (job : Nat) (o : Outcome) : Session :=
  { s with jobs := s.jobs.modify job fun j => { j with outcome := some o } }

/-- A compilation ends. -/
def finish (s : Session) (text : String) (job : Nat) (o : Outcome) : Session :=
  match o with
  | .ok _ => s.deliver job o
  | .error _ => (s.release text job).deliver job o

/-- One call, of which nothing else takes a step in between.  There is no outcome if the
text is already being compiled, because then the call would wait for ever. -/
def get (s : Session) (text : String) : Option Outcome × Session :=
  match s.enter text with
  | (.bypass, s) => (some (outcomeOf text), s)
  | (.join job, s) => (s.outcome? job, s)
  | (.start job, s) => (some (outcomeOf text), s.finish text job (outcomeOf text))
  | (.overdrawn, s) => (some (.error .overdrawn), s)

/-- Several callers look texts up one after the other. -/
def enterAll (s : Session) : List String → List Cache.Lookup × Session
  | [] => ([], s)
  | text :: texts =>
    let (found, s) := s.enter text
    let (others, s) := s.enterAll texts
    (found :: others, s)

/-- The compilations that look-ups of one text started come to their ends, in the order
in which they were started. -/
def finishAll (s : Session) (text : String) (found : List Cache.Lookup) : Session :=
  found.foldl (fun s l =>
    match l with
    | .start job => s.finish text job (outcomeOf text)
    | _ => s) s

/-- What a caller gets who was left so by a look-up of `text`, once all compilations have
ended. -/
def outcomeAfter (s : Session) (text : String) : Cache.Lookup → Option Outcome
  | .bypass => some (outcomeOf text)
  | .join job | .start job => s.outcome? job
  | .overdrawn => some (.error .overdrawn)

/-- The look-up makes its caller compile. -/
def compiles : Cache.Lookup → Bool
  | .bypass | .start _ => true
  | .join _ | .overdrawn => false

/-- What the callers of one text get who all enter before any of them goes on, and how
many of them compile. -/
structure Together where
  outcomes : List (Option Outcome)
  compilations : Nat

/-- `n` callers ask for one text, and all of them enter before any compilation ends. -/
def getTogether (s : Session) (text : String) (n : Nat) : Together × Session :=
  let (found, s) := s.enterAll (List.replicate n text)
  let s := s.finishAll text found
  ({ outcomes := found.map (s.outcomeAfter text), compilations := found.countP compiles }, s)

/-- Calls one after the other. -/
def getAll (s : Session) : List String → List (Option Outcome) × Session
  | [] => ([], s)
  | text :: texts =>
    let (o, s) := s.get text
    let (os, s) := s.getAll texts
    (o :: os, s)

/-- What a caller gets who comes back to the cache while it is compiling, and what it got
there. -/
structure Around where
  outcome : Option Outcome
  inner : List (Option Outcome)

/-- One call that asks for the texts `inner` while it is compiling, if it has to, and then
goes on, unless it is interrupted. -/
def getAround (s : Session) (text : String) (inner : List String) (interrupted : Bool) :
    Around × Session :=
  let o : Outcome := if interrupted then .error .interrupted else outcomeOf text
  match s.enter text with
  | (.bypass, s) =>
    let (os, s) := s.getAll inner
    (⟨some o, os⟩, s)
  | (.start job, s) =>
    let (os, s) := s.getAll inner
    (⟨some o, os⟩, s.finish text job o)
  | (.join job, s) => (⟨s.outcome? job, []⟩, s)
  | (.overdrawn, s) => (⟨some (.error .overdrawn), []⟩, s)

/-- The version satisfies the formula that the text stands for, which is asked for
first; the version comes from `version`, which may fail. -/
def satisfies (s : Session) (text : String) (version : Except SemverRange.Fault Version) :
    Option (Except Cache.Fault Bool) × Session :=
  let (o, s) := s.get text
  (o.map (Outcome.satisfies · version), s)

end Session

end SemverRange
