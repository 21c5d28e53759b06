import EditorTabs.Files.Tree
import EditorTabs.Host.Basic

/-!
# Hosts on a file tree

The command line looks at the files of a tree from a working directory. Texts that are being edited
stand before the files with the same path.
-/
namespace EditorTabs

structure Local where
  root : Option Text := none
  candidates : List Text := []
  endsUnnamed : Bool := false
  tabs : List Tab := []
  buffers : Assoc Text Text := []
  nesting : Nat := Json.commonNesting
  deriving DecidableEq, Repr

/-- The host of a workspace on a file tree. The root is shown as an absolute path, and a path to be
read in the form in which routes are written. A path that no file can have counts as one that leads
nowhere; who reads files by such a host does not ask it for one. -/
def Local.host (workspace : Local) (tree : Files.Tree) (cwd : Text) : Host where
  workingDirectory := cwd
  root := (workspace.root.filter (· ≠ [])).map (Path.absolute cwd)
  candidates := workspace.candidates
  endsUnnamed := workspace.endsUnnamed
  tabs := workspace.tabs
  isFile path := tree.isFile cwd path
  buffer path := workspace.buffers.get? path
  read path := tree.readFile cwd (Path.tidy path)
  nesting := workspace.nesting

def tabsOfPaths (cwd : Text) (paths : List Text) (group : Group) : List Tab :=
  paths.map fun path => { path := some (Path.absolute cwd path), group }

end EditorTabs
