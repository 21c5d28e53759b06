import EditorTabs.Assoc
import EditorTabs.OpenPaths

/-!
# Import graphs

A graph gives each file the set of files it refers to. The edges are what is left of it among the
open paths: a target is kept if it stands for an open path, once, and in the order of the targets.
-/
namespace EditorTabs

/-- Each file with the files it refers to. -/
abbrev ImportGraph := Assoc Text (List Text)

/-- The files of a graph: the paths of a list that are there and not empty, each once. -/
def graphFiles (paths : List (Option Text)) : List Text :=
  Text.distinct (paths.filterMap fun path => path.filter (· ≠ []))

namespace ImportGraph

def build (paths : List (Option Text)) (references : Text → List Text) : ImportGraph :=
  (graphFiles paths).map fun path => (path, Text.sortedSet (references path))

/-- What references were found to stand for; one that stands for no open path is kept, too. -/
abbrev Matches := Assoc Text (Option Text)

/-- What a reference stands for: as it was found before, or else as it is found and kept now. -/
def remember (index : OpenPaths) (known : Matches) (reference : Text) : Option Text × Matches :=
  match known.get? reference with
  | some found => (found, known)
  | none =>
    let found := index.match? reference
    (found, known.put reference found)

/-- The open paths that references stand for, put behind those that were collected before; a path
that is there already is left out. -/
def collect (index : OpenPaths) : List Text → List Text → Matches → List Text × Matches
  | [], targets, known => (targets, known)
  | reference :: rest, targets, known =>
    let recalled := remember index known reference
    match recalled.1 with
    | some target =>
      collect index rest (if target ∈ targets then targets else targets ++ [target]) recalled.2
    | none => collect index rest targets recalled.2

/-- The edges of files, one file after the other. What the references of a file were found to stand
for is kept for the files after it. -/
def edgesFrom (graph : ImportGraph) (index : OpenPaths) : List Text → Matches → ImportGraph
  | [], _ => []
  | path :: rest, known =>
    let collected := collect index (Text.sortedSet ((graph.get? path).getD [])) [] known
    (path, collected.1) :: edgesFrom graph index rest collected.2

def edges (graph : ImportGraph) (index : OpenPaths) : ImportGraph :=
  graph.edgesFrom index index.paths []

end ImportGraph

end EditorTabs
