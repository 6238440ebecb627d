import SemverRange.Version.Basic

/-!
# Precedence of versions

Versions are ordered by their triples; of two versions with one triple a
prerelease comes before the release, and two prereleases are ordered identifier
by identifier, a list before its proper extensions.  Numbers come before texts,
and texts are ordered by code points.  Build metadata has no part in it, so two
different values can be one version as far as the order is concerned.

## Main definitions

* `Version.before`, `Version.same` — strict precedence, and equality by precedence.
* `Version.compare` — the three-way comparison.
* `Relation`, `Relation.holds` — the six relations and what they say of two versions.
* `Version.sort`, `Version.countDistinct` — stable sorting, and the number of
  versions in a list that differ by precedence.
-/

namespace SemverRange

/-- A number comes before a greater number and before every text. -/
def Identifier.before : Identifier → Identifier → Bool
  | .num m, .num n => m < n
  | .num _, .alpha _ => true
  | .alpha _, .num _ => false
  | .alpha s, .alpha t => s < t

/-- The first place where the lists differ decides; a list comes before its
proper extensions. -/
def Identifier.listBefore : List Identifier → List Identifier → Bool
  | [], js => !js.isEmpty
  | _ :: _, [] => false
  | i :: is, j :: js => if i = j then listBefore is js else i.before j

namespace Version

/-- The prerelease parts alone: a prerelease comes before the release. -/
def prereleaseBefore (a b : Version) : Bool :=
  if a.isPrerelease then !b.isPrerelease || Identifier.listBefore a.prerelease b.prerelease
  else false

/-- The version `a` has lower precedence than `b`. -/
def before (a b : Version) : Bool :=
  if a.major ≠ b.major then a.major < b.major
  else if a.minor ≠ b.minor then a.minor < b.minor
  else if a.patch ≠ b.patch then a.patch < b.patch
  else prereleaseBefore a b

/-- The versions `a` and `b` have the same precedence. -/
def same (a b : Version) : Bool :=
  a.triple = b.triple ∧ a.prerelease = b.prerelease

/-- How `a` stands to `b` by precedence. -/
def compare (a b : Version) : Ordering :=
  if a.before b then .lt else if b.before a then .gt else .eq

@[simp]
theorem same_refl (v : Version) : v.same v = true := by simp [same]

@[simp]
theorem same_stripBuild (v : Version) : v.same v.stripBuild = true := by
  simp [same, triple, stripBuild]

end Version

/-- A relation between two versions. -/
inductive Relation
  | eq
  | ne
  | lt
  | le
  | gt
  | ge
  deriving DecidableEq, Repr

/-- The sign of the relation. -/
def Relation.symbol : Relation → String
  | .eq => "=="
  | .ne => "!="
  | .lt => "<"
  | .le => "<="
  | .gt => ">"
  | .ge => ">="

/-- The relation holds between `a` and `b`. -/
def Relation.holds : Relation → Version → Version → Bool
  | .eq, a, b => a.same b
  | .ne, a, b => !a.same b
  | .lt, a, b => a.before b
  | .le, a, b => a.before b || a.same b
  | .gt, a, b => !a.before b && !a.same b
  | .ge, a, b => !a.before b

/-- What the relation says of a version and a text, which is no version.  The two
are different, and no order is defined between them: then the answer is `none`. -/
def Relation.holdsOfText? : Relation → Option Bool
  | .eq => some false
  | .ne => some true
  | _ => none

namespace Version

/-- The versions in ascending order; those of one precedence keep their order. -/
def sort (vs : List Version) : List Version :=
  vs.mergeSort fun a b => !b.before a

/-- The number of versions in the list that differ by precedence. -/
def countDistinct : List Version → Nat
  | [] => 0
  | v :: vs => countDistinct vs + if vs.any v.same then 0 else 1

end Version

end SemverRange
