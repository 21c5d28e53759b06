import EditorTabs.Path.Basic
import EditorTabs.Text.Sorted

/-!
# Open paths

Links and copies of a workspace make one file reachable under different starts of its path. So a
path stands for an open path if they are equal, and else for the open path with which it shares
the most segments at the end, of several the one that was opened first.
-/
namespace EditorTabs

/-- The open paths, each once, in the order in which they were opened. -/
structure OpenPaths where
  paths : List Text
  deriving DecidableEq, Repr

def commonSuffix {α : Type} [DecidableEq α] (left right : List α) : Nat :=
  ((left.reverse.zip right.reverse).takeWhile fun pair => pair.1 = pair.2).length

def sharedSegments (left right : Text) : Nat :=
  commonSuffix (Path.segments left) (Path.segments right)

/-- The least number of shared segments: the name of a file and its directory. -/
def leastShared : Int := 2

namespace OpenPaths

def ofList (paths : List Text) : OpenPaths :=
  ⟨Text.distinct paths⟩

/-- The first of the paths that share the most segments with a path, if that is at least a given
number and more than `best` shares already. -/
def bestFrom (path : Text) (least : Int) : (best : Option Text × Nat) → List Text →
    Option Text × Nat
  | best, [] => best
  | best, candidate :: rest =>
    let shared := sharedSegments path candidate
    bestFrom path least
      (if least ≤ shared ∧ best.2 < shared then (some candidate, shared) else best) rest

/-- The open path that a path stands for, when at least a given number of segments is shared. -/
def matchWith? (openPaths : OpenPaths) (least : Int) (path : Text) : Option Text :=
  if path ∈ openPaths.paths then some path
  else (bestFrom path least (none, 0) openPaths.paths).1

def match? (openPaths : OpenPaths) (path : Text) : Option Text :=
  openPaths.matchWith? leastShared path

end OpenPaths

end EditorTabs
