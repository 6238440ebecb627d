import SemverRange.Text.Quoted

/-!
# Files by name

A settings document can be a file, named by a path that starts at a directory of which
all files and directories are known.  A path is a list of steps; empty steps and steps
that stay where they are do not count, so a path has a shortest spelling, which messages
show.  A step back leads from a directory to the one it is in; from a file there is no
step at all.

## Main definitions

* `FilePath`, `FilePath.parse`, `FilePath.print` — paths and their spelling.
* `Files`, `Files.find` — the known files, and what a path leads to.
-/

namespace SemverRange

/-- A path. -/
structure FilePath where
  /-- The slashes at its start, which lead to the top: none, one or two. -/
  slashes : Nat
  /-- The steps. -/
  steps : List String
  deriving DecidableEq, Repr

namespace FilePath

/-- The path that a text spells. -/
def parse (text : String) : FilePath :=
  let leading := (text.toList.takeWhile (· = '/')).length
  { slashes := if leading = 2 then 2 else min leading 1
    steps := ((text.toList.splitOn '/').filter fun s => s ≠ [] && s ≠ ['.']).map String.ofList }

/-- The shortest spelling of the path. -/
def print (p : FilePath) : String :=
  let text := String.ofList (List.replicate p.slashes '/') ++ String.intercalate "/" p.steps
  if text.isEmpty then "." else text

/-- The greatest number of octets in the name of a file. -/
def nameLimit : Nat := 255

/-- The greatest number of octets in a path. -/
def pathLimit : Nat := 4095

/-- The step is longer than the name of a file can be. -/
def isTooLong (step : String) : Bool := nameLimit < step.utf8ByteSize

end FilePath

/-- The directories and files that are known, each by its steps. -/
structure Files where
  directories : List (List String)
  files : List (List String × List UInt8)

/-- What a path leads to. -/
inductive Found
  | file (octets : List UInt8)
  | directory
  | nothing
  /-- A step is too long for the name of a file, or the path is too long. -/
  | tooLong
  deriving DecidableEq, Repr

namespace Files

/-- The steps lead to a directory: one that is listed, or one that something listed is
in. -/
def isDirectory (fs : Files) (steps : List String) : Bool :=
  steps.isEmpty || fs.directories.any (steps.isPrefixOf ·) ||
    fs.files.any fun f => steps.length < f.1.length && steps.isPrefixOf f.1

/-- What further steps lead to from the directory that `here` leads to, where `above` is
how far that is above the known ones; of the directories up there nothing is known but
that they exist. -/
def walk (fs : Files) (above : Nat) (here : List String) : List String → Found
  | [] => .directory
  | step :: steps =>
    if step = ".." then
      match here with
      | [] => walk fs (above + 1) [] steps
      | _ => walk fs above here.dropLast steps
    else if FilePath.isTooLong step then .tooLong
    else if above ≠ 0 then .nothing
    else if fs.isDirectory (here ++ [step]) then walk fs 0 (here ++ [step]) steps
    else
      match fs.files.find? fun f => f.1 = here ++ [step] with
      | some f => if steps.isEmpty then .file f.2 else .nothing
      | none => .nothing

/-- What the path leads to.  Nothing has a name with NUL in it. -/
def find (fs : Files) (p : FilePath) : Found :=
  if p.steps.any (·.contains '\x00') then .nothing
  else if FilePath.pathLimit < p.print.utf8ByteSize then .tooLong
  else fs.walk (if p.slashes = 0 then 0 else 1) [] p.steps

end Files

end SemverRange
