import RobotHand.Files.Path
import RobotHand.Table

/-! Folders and text files. Each operation takes full effect or fails without effect. -/
namespace RobotHand

inductive Node
  | folder
  | file (text : String)
  deriving DecidableEq, Repr

/-- The nodes below the current folder and below the root, which exist themselves. -/
structure FileTree where
  nodes : Table Path Node := .empty
  deriving DecidableEq, Inhabited

namespace FileTree

inductive Failure
  | missing
  | notFolder
  | isFolder
  deriving DecidableEq, Repr

def empty : FileTree := {}

/-- Puts a node at a path, whatever else there is. -/
def put (t : FileTree) (p : Path) (n : Node) : FileTree := ⟨t.nodes.put p n⟩

def node? (t : FileTree) (p : Path) : Option Node :=
  if p.names = [] then some .folder else t.nodes.get? p

def read (t : FileTree) (p : Path) : Except Failure String :=
  match t.node? p with
  | some (.file s) => .ok s
  | some .folder => .error .isFolder
  | none => .error .missing

/-- Makes a folder in a folder that exists, unless it exists itself. -/
def makeFolder (t : FileTree) (p : Path) : Except Failure FileTree :=
  match t.node? p with
  | some .folder => .ok t
  | some (.file _) => .error .notFolder
  | none => .ok (t.put p .folder)

/-- Makes a folder with all folders that lead to it. -/
def makeFolders (t : FileTree) (p : Path) : Except Failure FileTree :=
  p.ancestry.foldlM makeFolder t

/-- Whether a file may be put at a path: in a folder, and not in place of one. -/
def admits (t : FileTree) (p : Path) : Except Failure Unit :=
  match t.node? p.parent, t.node? p with
  | some .folder, some .folder => .error .isFolder
  | some .folder, _ => .ok ()
  | some (.file _), _ => .error .notFolder
  | none, _ => .error .missing

def write (t : FileTree) (p : Path) (text : String) : Except Failure FileTree := do
  t.admits p
  return t.put p (.file text)

def remove (t : FileTree) (p : Path) : Except Failure FileTree := do
  let _ ← t.read p
  return ⟨t.nodes.erase p⟩

/-- Moves a file, which replaces a file at its new place. -/
def move (t : FileTree) (p q : Path) : Except Failure FileTree := do
  let text ← t.read p
  t.admits q
  return if p = q then t else put ⟨t.nodes.erase p⟩ q (.file text)

def files (t : FileTree) : List Path :=
  t.nodes.entries.filterMap fun (p, n) =>
    match n with
    | .file _ => if p.absolute then none else some p
    | .folder => none

end FileTree
end RobotHand
