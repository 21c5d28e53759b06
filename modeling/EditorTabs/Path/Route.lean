import EditorTabs.Path.Basic

/-!
# Routes

A route is a path as a list of steps. Empty steps and steps for the directory itself are gone, and
a step up is kept, since a walk has to take it.
-/
namespace EditorTabs.Path

/-- A path as steps: how many slashes it starts with (one, two, or none for a path from the
working directory), and the steps. -/
structure Route where
  slashes : Nat
  steps : List Segment
  deriving DecidableEq, Repr

namespace Route

def ofPath (path : Text) : Route :=
  ⟨leadingSlashes path, (split path).filter fun segment => segment ≠ [] && segment ≠ here⟩

def isAbsolute (route : Route) : Bool :=
  route.slashes ≠ 0

def path (route : Route) : Text :=
  match List.replicate route.slashes slash ++ unsplit route.steps with
  | [] => here
  | path => path

/-- One route after another; a route from the root stands for itself. -/
def append (base route : Route) : Route :=
  if route.isAbsolute then route else ⟨base.slashes, base.steps ++ route.steps⟩

def parent (route : Route) : Route :=
  { route with steps := route.steps.dropLast }

end Route

/-- The path in the form in which routes are written. -/
def tidy (path : Text) : Text :=
  (Route.ofPath path).path

end EditorTabs.Path
