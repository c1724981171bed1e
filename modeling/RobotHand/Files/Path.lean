/-! Paths of files. -/
namespace RobotHand

/-- A path is absolute or relative to the current folder, and leads through names. -/
structure Path where
  absolute : Bool
  names : List String
  deriving DecidableEq, Repr, Inhabited

namespace Path

/-- What stands before, between and behind the slashes of a text. -/
def segments : List Char → List (List Char)
  | [] => [[]]
  | c :: r => if c = '/' then [] :: segments r else (segments r).modifyHead (c :: ·)

/-- Reads a path; empty names and single points between slashes are dropped. -/
def ofText (s : String) : Path :=
  ⟨s.toList.head? = some '/',
    ((segments s.toList).filter fun name => name ≠ [] ∧ name ≠ ['.']).map String.ofList⟩

def text (p : Path) : String :=
  if p.names = [] then if p.absolute then "/" else "."
  else (if p.absolute then "/" else "") ++ "/".intercalate p.names

def parent (p : Path) : Path := { p with names := p.names.dropLast }

/-- A path and the folders it leads through, the outermost first. -/
def ancestry (p : Path) : List Path :=
  (List.range p.names.length).map fun i => { p with names := p.names.take (i + 1) }

/-- A name without the suffix that its last point starts; a point at either end starts none. -/
def stem (name : List Char) : List Char :=
  let suffix := name.reverse.takeWhile (· ≠ '.')
  let stem := name.take (name.length - suffix.length - 1)
  if suffix = [] ∨ stem = [] then name else stem

/-- The path beside this one whose name ends in another suffix; `none` for a path without a name. -/
def withSuffix? (p : Path) (suffix : String) : Option Path :=
  p.names.getLast?.map fun name =>
    { p with names := p.names.dropLast ++ [String.ofList (stem name.toList) ++ suffix] }

end Path
end RobotHand
