import EditorTabs.Assoc
import EditorTabs.Files.Fault
import EditorTabs.Path.Basic
import EditorTabs.Path.Route
import EditorTabs.Text.Utf8

/-!
# File trees

A file tree holds directories and files by their place, the list of names from the root. A path is
walked step by step from the root or from a working directory, and every step needs a directory to
stand in. There are no links, so a step up leads to the place with one name less. A name and a path
may have so many bytes and no more. No file keeps an operation from working on it: what may not be
read or written is left out, and so are links.
-/
namespace EditorTabs.Files

open EditorTabs.Path (Segment Route)

/-- Where something stands: the names from the root on. -/
abbrev Place := List Segment

inductive Node where
  | directory
  | file (bytes : List UInt8)
  deriving DecidableEq, Repr

/-- Everything below the root, by place. The root itself is always there. -/
structure Tree where
  nodes : Assoc Place Node
  deriving DecidableEq, Repr

/-- The place of an absolute path, without a look at any tree. -/
def placeOf (path : Text) : Place :=
  Path.names path

def nameLimit : Nat := 255

def pathLimit : Nat := 4095

def exceeds (limit : Nat) (s : Text) : Bool :=
  limit < (Text.Utf8.encode s).length

/-- Where a walk ends: at a node, at a free place in a directory, or before its end. -/
inductive Walk where
  | found (place : Place) (node : Node)
  | free (place : Place)
  | blocked (number : Int)
  deriving DecidableEq, Repr

/-- Why a file cannot be read: by an answer of the system, or for its path. -/
inductive ReadFault where
  | system (fault : Fault)
  | path (cause : PathFault)
  deriving DecidableEq, Repr

namespace Tree

def empty : Tree := ⟨[]⟩

def node? (tree : Tree) (place : Place) : Option Node :=
  if place = [] then some .directory else Assoc.get? place tree.nodes

def put (tree : Tree) (place : Place) (node : Node) : Tree :=
  ⟨Assoc.put place node tree.nodes⟩

def remove (tree : Tree) (place : Place) : Tree :=
  ⟨Assoc.erase place tree.nodes⟩

def walkFrom (tree : Tree) : Place → List Segment → Walk
  | place, [] =>
    match tree.node? place with
    | some node => .found place node
    | none => .free place
  | place, segment :: rest =>
    match tree.node? place with
    | some .directory =>
      if segment = [] ∨ segment = Path.here then tree.walkFrom place rest
      else if segment = Path.up then tree.walkFrom place.dropLast rest
      else if exceeds nameLimit segment then .blocked tooLong
      else if (tree.node? (place ++ [segment])).isSome ∨ rest = [] then
        tree.walkFrom (place ++ [segment]) rest
      else .blocked 2
    | some (.file _) => .blocked 20
    | none => .blocked 2

/-- The walk along a path, from the root or from a working directory. The empty path leads nowhere,
and so does one that no file can have. -/
def walk (tree : Tree) (cwd path : Text) : Walk :=
  if path = [] ∨ (pathFault? path).isSome then .blocked 2
  else if exceeds pathLimit path then .blocked tooLong
  else if Path.isAbsolute path then tree.walkFrom [] (Path.split path)
  else tree.walkFrom (placeOf cwd) (Path.split path)

/-- Whether a walk along a path ends at its length or that of a name in it. -/
def isTooLong (tree : Tree) (cwd path : Text) : Bool :=
  tree.walk cwd path = .blocked tooLong

def isThere (tree : Tree) (cwd path : Text) : Bool :=
  match tree.walk cwd path with
  | .found _ _ => true
  | _ => false

def isFile (tree : Tree) (cwd path : Text) : Bool :=
  match tree.walk cwd path with
  | .found _ (.file _) => true
  | _ => false

def isDirectory (tree : Tree) (cwd path : Text) : Bool :=
  match tree.walk cwd path with
  | .found _ .directory => true
  | _ => false

def readFile (tree : Tree) (cwd path : Text) : Except Fault (List UInt8) :=
  match tree.walk cwd path with
  | .found _ (.file bytes) => .ok bytes
  | .found _ .directory => .error (.isDirectory path)
  | .free _ => .error (.noEntry path)
  | .blocked number => .error ⟨number, path⟩

/-- The bytes of the file that a path leads to. The system is not asked about a path that no file
can have. -/
def read (tree : Tree) (cwd path : Text) : Except ReadFault (List UInt8) :=
  match pathFault? path with
  | some cause => .error (.path cause)
  | none => (tree.readFile cwd path).mapError .system

/-- The tree with new bytes in the file that a path leads to, which is made if need be. -/
def write (tree : Tree) (cwd path : Text) (bytes : List UInt8) : Except Fault Tree :=
  match tree.walk cwd path with
  | .found place (.file _) => .ok (tree.put place (.file bytes))
  | .found _ .directory => .error (.isDirectory path)
  | .free place => .ok (tree.put place (.file bytes))
  | .blocked number => .error ⟨number, path⟩

def delete (tree : Tree) (cwd path : Text) : Except Fault Tree :=
  match tree.walk cwd path with
  | .found place (.file _) => .ok (tree.remove place)
  | .found _ .directory => .error (.isDirectory path)
  | .free _ => .error (.noEntry path)
  | .blocked number => .error ⟨number, path⟩

def makeDirectory (tree : Tree) (cwd path : Text) : Except Fault Tree :=
  match tree.walk cwd path with
  | .found _ _ => .error (.alreadyThere path)
  | .free place => .ok (tree.put place .directory)
  | .blocked number => .error ⟨number, path⟩

def ensureDirectory (tree : Tree) (cwd path : Text) : Except Fault Tree :=
  match tree.makeDirectory cwd path with
  | .ok tree => .ok tree
  | .error fault =>
    if fault.number ≠ 2 ∧ tree.isDirectory cwd path then .ok tree else .error fault

/-- The tree with the directory at the end of steps, and those on the way to it. The steps come
last first; the way is made only when the directory cannot be made without it. -/
def makeWay (tree : Tree) (cwd : Text) (slashes : Nat) : List Segment → Tree × Option Fault
  | [] =>
    match tree.ensureDirectory cwd (Route.mk slashes []).path with
    | .ok tree => (tree, none)
    | .error fault => (tree, some fault)
  | step :: before =>
    let path := (Route.mk slashes (step :: before).reverse).path
    match tree.ensureDirectory cwd path with
    | .ok tree => (tree, none)
    | .error fault =>
      if fault.number = 2 then
        match tree.makeWay cwd slashes before with
        | (tree, some fault) => (tree, some fault)
        | (tree, none) =>
          match tree.ensureDirectory cwd path with
          | .ok tree => (tree, none)
          | .error fault => (tree, some fault)
      else (tree, some fault)

/-- The tree with the directory at the end of a route, and those on the way to it. What was made
before a fault stays. -/
def makeDirectories (tree : Tree) (cwd : Text) (route : Route) : Tree × Option Fault :=
  tree.makeWay cwd route.slashes route.steps.reverse

def plant (tree : Tree) (place : Place) (node : Node) : Tree :=
  let above := (List.range (place.length - 1)).map fun count => place.take (count + 1)
  let tree := above.foldl
    (fun tree place => if (tree.node? place).isSome then tree else tree.put place .directory) tree
  tree.put place node

def changedFiles (before after : Tree) : List (Place × List UInt8) :=
  after.nodes.filterMap fun (place, node) =>
    match node with
    | .directory => none
    | .file bytes => if before.node? place = some (.file bytes) then none else some (place, bytes)

/-- The directories that were not in an earlier tree, in the order in which they were made. -/
def newDirectories (before after : Tree) : List Place :=
  after.nodes.filterMap fun (place, node) =>
    match node with
    | .directory => if (before.node? place).isSome then none else some place
    | .file _ => none

end Tree

end EditorTabs.Files
