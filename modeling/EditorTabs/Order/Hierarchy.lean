import EditorTabs.Order.Comparison
import EditorTabs.Order.Natural
import EditorTabs.Path.Basic

/-!
# Order by the hierarchy of directories

Paths as seen from the root of the workspace: the less deep come first, of two equally deep ones
that of a directory above the other's, and else the natural order decides. Tabs without a path come
last.
-/
namespace EditorTabs.Order

def pathDepth (path : Text) : Nat :=
  if path = [] ∨ path = Path.here then 0 else (Path.segments path).length - 1

/-- A path as seen from the root, or the path itself without a root; with slashes for
backslashes. -/
def seenFrom (cwd : Text) (root : Option Text) (path : Text) : Text :=
  match root.filter (· ≠ []) with
  | some root => Path.forward (Path.relative cwd path root)
  | none => Path.forward path

def isBelow (directory above : Text) : Bool :=
  (above ++ [Path.slash]).isPrefixOf directory

def compareSeen (a b : Text) : Except Fault Ordering :=
  if pathDepth a ≠ pathDepth b then .ok (compare (pathDepth a) (pathDepth b))
  else
    let directoryA := Path.parent a
    let directoryB := Path.parent b
    if directoryA ≠ directoryB ∧ isBelow directoryB directoryA then .ok .lt
    else if directoryA ≠ directoryB ∧ isBelow directoryA directoryB then .ok .gt
    else naturalCompare a b

def hierarchy (cwd : Text) (root : Option Text) : Comparison :=
  .ofPaths fun a b => compareSeen (seenFrom cwd root a) (seenFrom cwd root b)

end EditorTabs.Order
