/-!
# Versions

A version `major.minor.patch[-prerelease][+build]`.  The three numbers form its
*triple*; a version with prerelease identifiers is a prerelease, any other a
release.  Build metadata is carried along and takes part in nothing but printing.

## Main definitions

* `Identifier`, `Version` — prerelease identifiers and versions.
* `Version.ofParts?` — the checked constructor: no negative number and no empty
  identifier.
* `Version.stripBuild`, `Version.stripPrerelease`, `Version.nextMajor`,
  `Version.nextMinor`, `Version.nextPatch` — the versions derived from one.
-/

namespace SemverRange

/-- A prerelease identifier: a number, or a text that is compared as such. -/
inductive Identifier
  /-- A numeric identifier. -/
  | num (n : Int)
  /-- An identifier that is a text, even if it consists of digits. -/
  | alpha (s : String)
  deriving DecidableEq, Repr

/-- A version `major.minor.patch[-prerelease][+build]`. -/
structure Version where
  /-- The first number. -/
  major : Nat
  /-- The second number. -/
  minor : Nat
  /-- The third number. -/
  patch : Nat
  /-- The identifiers after the dash; a release has none. -/
  prerelease : List Identifier
  /-- The identifiers after the plus sign. -/
  build : List String
  deriving DecidableEq, Repr

namespace Version

/-- What keeps parts from making a version. -/
inductive Defect
  /-- One of the three numbers is negative. -/
  | negativeComponent
  /-- A prerelease or build identifier is empty. -/
  | emptyIdentifier
  deriving DecidableEq, Repr

/-- The wording of the defect. -/
def Defect.message : Defect → String
  | .negativeComponent => "Version components must be non-negative"
  | .emptyIdentifier => "Version identifiers must be non-empty"

/-- The version with the given triple and nothing after it. -/
def release (major minor patch : Nat) : Version :=
  { major, minor, patch, prerelease := [], build := [] }

/-- The version with the given parts.  The numbers are checked before the
identifiers. -/
def ofParts? (major minor patch : Int) (prerelease : List Identifier) (build : List String) :
    Except Defect Version :=
  if major < 0 ∨ minor < 0 ∨ patch < 0 then .error .negativeComponent
  else if prerelease.contains (.alpha "") || build.contains "" then .error .emptyIdentifier
  else .ok ⟨major.toNat, minor.toNat, patch.toNat, prerelease, build⟩

/-- The version `0.0.0`, below every other release. -/
def zero : Version := release 0 0 0

/-- The version has a prerelease part. -/
def isPrerelease (v : Version) : Bool := !v.prerelease.isEmpty

/-- The three numbers of the version. -/
def triple (v : Version) : Nat × Nat × Nat := (v.major, v.minor, v.patch)

/-- The version without its build metadata. -/
def stripBuild (v : Version) : Version := { v with build := [] }

/-- The version without its prerelease part; its build metadata stays. -/
def stripPrerelease (v : Version) : Version := { v with prerelease := [] }

/-- The first release with a greater major number. -/
def nextMajor (v : Version) : Version := release (v.major + 1) 0 0

/-- The first release with the same major and a greater minor number. -/
def nextMinor (v : Version) : Version := release v.major (v.minor + 1) 0

/-- The first release with the same major and minor and a greater patch number. -/
def nextPatch (v : Version) : Version := release v.major v.minor (v.patch + 1)

@[simp]
theorem triple_stripBuild (v : Version) : v.stripBuild.triple = v.triple := rfl

@[simp]
theorem isPrerelease_stripBuild (v : Version) : v.stripBuild.isPrerelease = v.isPrerelease := rfl

@[simp]
theorem stripBuild_stripBuild (v : Version) : v.stripBuild.stripBuild = v.stripBuild := rfl

@[simp]
theorem isPrerelease_stripPrerelease (v : Version) : v.stripPrerelease.isPrerelease = false := rfl

end Version

end SemverRange
