import EditorTabs.Order.Alphabetical
import EditorTabs.Order.Hierarchy
import EditorTabs.Session.Order

/-!
# Strategies

The three ways to order tabs, under the keys that settings and commands use.
-/
namespace EditorTabs

inductive Strategy where
  | fileSystem
  | imports
  | alphabetical
  deriving DecidableEq, Repr

namespace Strategy

def all : List Strategy := [.fileSystem, .imports, .alphabetical]

def key : Strategy → Text
  | .fileSystem => "fileSystem"
  | .imports => "imports"
  | .alphabetical => "alphabetical"

def name : Strategy → Text
  | .fileSystem => "File System Hierarchy"
  | .imports => "Import Order"
  | .alphabetical => "Alphabetical"

def keys : List Text := all.map key

def default : Strategy := .fileSystem

def ofKey? (key : Text) : Option Strategy :=
  all.find? fun strategy => strategy.key = key

theorem ofKey?_key (strategy : Strategy) : ofKey? strategy.key = some strategy := by
  cases strategy <;> rfl

def ofKey (key : Text) : Except Fault Strategy :=
  match ofKey? key with
  | some strategy => .ok strategy
  | none => .error (.unknownStrategy key keys)

/-- The tabs in the order of a strategy. Only the order by imports uses the session. -/
def order (strategy : Strategy) (host : Host) (tabs : List Tab) (session : Session) :
    Outcome (List Tab) :=
  match strategy with
  | .imports => session.order host tabs
  | .alphabetical => (Order.sortTabs Order.alphabetical tabs, session)
  | .fileSystem =>
    (Order.sortTabs (Order.hierarchy host.workingDirectory host.root) tabs, session.ask .root)

end Strategy

structure Arranged where
  group : Group
  tabs : List Tab
  changed : Bool
  deriving DecidableEq, Repr

def arrangeGroups (strategy : Strategy) (host : Host) : List Members → Session →
    Outcome (List Arranged)
  | [], session => (.ok [], session)
  | (group, members) :: rest, session =>
    match strategy.order host members session with
    | (.error fault, after) => (.error fault, after)
    | (.ok tabs, after) =>
      match arrangeGroups strategy host rest after with
      | (.error fault, last) => (.error fault, last)
      | (.ok others, last) =>
        (.ok ({ group, tabs, changed := !Tab.sameList tabs members } :: others), last)

def arrange (strategy : Strategy) (host : Host) (tabs : List Tab) (session : Session) :
    Outcome (List Arranged) :=
  arrangeGroups strategy host (groupTabs tabs) session

end EditorTabs
