import JlrModel.Cell.Spec
import JlrModel.Lib.Result

-- Where the private root of a cell is put together.

namespace CellSpec

-- The paths that a capability grants.
def granted (spec : CellSpec) : List String :=
  spec.capabilities.filterMap fun | .fsRead p | .fsWrite p => some p | _ => none

end CellSpec

namespace Assembly

-- `/` contains every path, and what follows it in a path does not start with a slash.
def within (a b : String) : Bool :=
  b = "/" ∨ a = b ∨ (Text.stripPrefix b a).any (Text.startsWith · "/")

def overlaps (dir p : String) : Bool :=
  within p dir ∨ within dir p

def CANDIDATES : List String := ["/tmp", "/mnt", "/media", "/srv", "/opt", "/run"]

-- The first directory that no grant overlaps. What is mounted there hides everything below it.
def assemblyDir (isDir : String → Bool) (spec : CellSpec) : Except String String :=
  Except.okOr "no directory is free to assemble the private root in (every candidate overlaps a grant)" <|
    CANDIDATES.find? fun d => isDir d ∧ ¬ spec.granted.any (overlaps d)

end Assembly
