import SemverRange.Fault
import SemverRange.Numeric.Binary64

/-!
# The cache of compiled formulas

A cache remembers which texts were compiled, or are being compiled, and under which
number their compilation runs.  It holds its entries in the order of their last use
and drops the least recently used ones when a new one makes it too large.  Nothing is
dropped at any other time: a smaller size takes effect with the next new entry.

Every operation of this module is one that nothing else can interrupt.

## Main definitions

* `Cache.Size` — how many entries a cache may hold.
* `Cache`, `Cache.new?` — the cache, and an empty one of a given size.
* `Cache.Lookup` — where a look-up leaves the caller.
* `Cache.seek` — look a text up, and make an entry for it if there is none.
* `Cache.release` — take back the entry of a compilation that came to nothing.
* `Cache.Fault` — what can go wrong with a cache.

## Main results

* `Cache.evict_suffix`, `Cache.length_evict_le` — what is kept of the entries is a tail of them, for
  which there is room.
-/

namespace SemverRange

/-- A text, and the number of the compilation that its value comes from. -/
structure Cache.Entry where
  text : String
  job : Nat
  deriving DecidableEq, Repr

/-- How many entries a cache may hold.  Settings can give it as a floating-point number. -/
inductive Cache.Size
  | whole (n : Int)
  | real (x : Binary64)
  deriving DecidableEq, Repr

/-- A cache of compiled formulas. -/
structure Cache where
  /-- The entries, least recently used first. -/
  entries : List Cache.Entry
  /-- How many entries may be left after a miss. -/
  maxSize : Cache.Size
  /-- A cache that is turned off is passed by. -/
  enabled : Bool
  /-- How many look-ups found an entry. -/
  hits : Nat
  /-- How many look-ups made one. -/
  misses : Nat
  deriving DecidableEq, Repr

namespace Cache

/-- The size of a cache for which none is asked. -/
def defaultSize : Nat := 512

namespace Size

/-- The size is less than one. -/
def isTooSmall : Size → Bool
  | whole n => n < 1
  | real x => x.isLessThanOne

/-- The size is less than zero. -/
def isNegative : Size → Bool
  | whole n => n < 0
  | real x => x.isNegative

/-- The greatest number of entries that fits the size.  There is none if the size is
infinite or no number: then nothing is too much. -/
def room : Size → Option Nat
  | whole n => some n.toNat
  | real x => if x.isNegative then some 0 else x.floor?

end Size

/-- What can go wrong with a cache. -/
inductive Fault
  /-- The text does not compile, or the version that is tried on it is none. -/
  | ofFormula (f : SemverRange.Fault)
  /-- The compilation was interrupted. -/
  | interrupted
  /-- A cache is to be made that cannot hold anything. -/
  | sizeTooSmall
  /-- The size is negative, so even an empty cache is too large. -/
  | overdrawn
  /-- A cache is to be made of a size that is no number but of the named kind. -/
  | noSize (kind : String)
  deriving DecidableEq, Repr

/-- The wording of the fault. -/
def Fault.message : Fault → String
  | ofFormula f => f.message
  | interrupted => "interrupted"
  | sizeTooSmall => "max_size must be at least 1"
  | overdrawn => "'dictionary is empty'"
  | noSize kind => "'<' not supported between instances of '" ++ kind ++ "' and 'int'"

/-- An empty cache of the given size, which is at least one. -/
def new? (maxSize : Size) (enabled : Bool) : Except Fault Cache :=
  if maxSize.isTooSmall then .error .sizeTooSmall
  else .ok { entries := [], maxSize, enabled, hits := 0, misses := 0 }

/-- The texts in the order of their last use, the latest last. -/
def keys (c : Cache) : List String := c.entries.map Entry.text

/-- The number of entries. -/
def size (c : Cache) : Nat := c.entries.length

/-- There is an entry for the text. -/
def contains (c : Cache) (text : String) : Bool := c.entries.any (·.text = text)

/-- The cache without its entries; the counts stay. -/
def clear (c : Cache) : Cache := { c with entries := [] }

/-- The cache turned on or off. -/
def setEnabled (c : Cache) (enabled : Bool) : Cache := { c with enabled }

/-- The cache with another size, which its next miss will enforce. -/
def setMaxSize (c : Cache) (maxSize : Size) : Cache := { c with maxSize }

/-- Where a look-up leaves the caller. -/
inductive Lookup
  /-- The cache is off: compile the text, and leave the cache alone. -/
  | bypass
  /-- The value is that of the compilation with this number, as soon as it is there. -/
  | join (job : Nat)
  /-- Compile the text under this number. -/
  | start (job : Nat)
  /-- The size is negative, and the look-up cannot be completed. -/
  | overdrawn
  deriving DecidableEq, Repr

/-- The latest `n` entries. -/
def latest (n : Nat) (entries : List Entry) : List Entry := entries.drop (entries.length - n)

/-- The latest entries that fit the size. -/
def evict (maxSize : Size) (entries : List Entry) : List Entry :=
  maxSize.room.elim entries (latest · entries)

/-- The cache with a new entry at the end and no more entries than it may hold.  The
number of the compilation is the number of misses before it. -/
def insert (c : Cache) (text : String) : Cache :=
  { c with
    entries := evict c.maxSize (c.entries ++ [⟨text, c.misses⟩])
    misses := c.misses + 1 }

/-- The cache with the entry `e` moved to the end. -/
def touch (c : Cache) (e : Entry) : Cache :=
  { c with entries := c.entries.erase e ++ [e], hits := c.hits + 1 }

/-- Look a text up in a cache that was found turned on.  If it is found, its entry becomes
the latest; if not, it gets an entry, for which the oldest ones make room. -/
def seek (c : Cache) (text : String) : Lookup × Cache :=
  match c.entries.find? (·.text = text) with
  | some e => (.join e.job, c.touch e)
  | none => (if c.maxSize.isNegative then .overdrawn else .start c.misses, c.insert text)

/-- The cache without the entry for `text`, if that is still the one that the compilation
`job` was started for. -/
def release (c : Cache) (text : String) (job : Nat) : Cache :=
  { c with entries := c.entries.erase ⟨text, job⟩ }

/-- What fits a size is a tail of the entries. -/
theorem evict_suffix (maxSize : Size) (entries : List Entry) :
    evict maxSize entries <:+ entries := by
  unfold evict
  cases maxSize.room with
  | none => exact List.suffix_refl _
  | some n => exact List.drop_suffix _ _

/-- At most `n` entries are the latest `n`. -/
theorem length_latest_le (n : Nat) (entries : List Entry) :
    (latest n entries).length ≤ n := by
  rw [latest, List.length_drop]
  omega

/-- No more entries are left than there is room for. -/
theorem length_evict_le {maxSize : Size} {n : Nat} (h : maxSize.room = some n)
    (entries : List Entry) : (evict maxSize entries).length ≤ n := by
  rw [evict, h]
  exact length_latest_le n entries

end Cache

end SemverRange
