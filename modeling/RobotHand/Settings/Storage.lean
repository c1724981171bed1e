import RobotHand.Files.Tree
import RobotHand.Settings.Text

/-! Settings kept in files. -/
namespace RobotHand.Settings

open Document

inductive StorageFailure
  | file (cause : FileTree.Failure)
  | rejected (complaints : List Complaint)
  /-- The path has no name that a suffix could be given to. -/
  | nameless (path : Path)
  deriving DecidableEq, Repr

namespace StorageFailure

def message? : StorageFailure → Option String
  | nameless p => some ("PosixPath(" ++ Quoted.quote p.text ++ ") has an empty name")
  | _ => none

end StorageFailure

/-- The file that holds settings where no other is named. -/
def defaultPath : String := "data/config/robot-hand-config.json"

/-- The path of a settings file: a given one, else the one that the environment names, else the
default. -/
def path (given environment : Option String) : Path :=
  Path.ofText (given.getD (environment.getD defaultPath))

/-- Loads settings; a file that is missing or empty stands for the default ones. -/
def load (t : FileTree) (p : Path) : Except StorageFailure Settings :=
  match t.read p with
  | .error .missing => .ok default
  | .error e => .error (.file e)
  | .ok "" => .ok default
  | .ok s => (read s).toExcept.mapError .rejected

/-- A tree without the file at a path. -/
def discard (t : FileTree) (p : Path) : FileTree :=
  match t.remove p with
  | .ok t => t
  | .error _ => t

/-- Writes a text beside the target and moves it there, so that the target never holds part of
it. -/
def replace (t : FileTree) (draft target : Path) (text : String) :
    FileTree × Except FileTree.Failure Unit :=
  match t.write draft text with
  | .error e => (discard t draft, .error e)
  | .ok written =>
    match written.move draft target with
    | .error e => (discard written draft, .error e)
    | .ok moved => (moved, .ok ())

/-- Saves settings, with the folders that lead to the file. -/
def save (s : Settings) (t : FileTree) (p : Path) : FileTree × Except StorageFailure Path :=
  match t.makeFolders p.parent with
  | .error e => (t, .error (.file e))
  | .ok t =>
    match p.withSuffix? ".tmp" with
    | none => (t, .error (.nameless p))
    | some draft =>
      let (t, outcome) := replace t draft p s.document
      (t, (outcome.mapError .file).map fun _ => p)

end RobotHand.Settings
