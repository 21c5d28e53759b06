import EditorTabs.Fault
import EditorTabs.Files.Tree
import EditorTabs.Json.Writer

/-!
# Artifacts

A value is written to a file over several lines. A relative name is taken from a directory of its
own below the working directory; directories on the way are made. A name that no file can have
counts as one that cannot be written.
-/
namespace EditorTabs.Artifact

open EditorTabs.Path (Route)

def directory : Route := Route.ofPath "workspace"

def routeOf (name : Text) : Route :=
  directory.append (Route.ofPath name)

/-- The directories that are made for a name, in order. -/
def directoriesOf (name : Text) : List Route :=
  if (Route.ofPath name).isAbsolute then [(routeOf name).parent]
  else [directory, (routeOf name).parent]

def makeAll (tree : Files.Tree) (cwd : Text) : List Route → Files.Tree × Option Files.Fault
  | [] => (tree, none)
  | route :: rest =>
    match tree.makeDirectories cwd route with
    | (tree, some fault) => (tree, some fault)
    | (tree, none) => makeAll tree cwd rest

/-- The path of a written artifact, or why it could not be written; and the tree after it, with
what was made before a fault. -/
def write (tree : Files.Tree) (cwd name : Text) (value : Json) :
    Except Fault Text × Files.Tree :=
  match makeAll tree cwd (directoriesOf name) with
  | (tree, some fault) => (.error (.unwritable fault), tree)
  | (tree, none) =>
    let path := (routeOf name).path
    match tree.write cwd path (Text.Utf8.encode value.writeLines) with
    | .error fault => (.error (.unwritable fault), tree)
    | .ok tree => (.ok path, tree)

end EditorTabs.Artifact
