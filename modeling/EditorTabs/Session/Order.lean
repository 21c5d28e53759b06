import EditorTabs.ImportGraph.Depth
import EditorTabs.Session.Basic
import EditorTabs.Tab

/-!
# Order by imports

The tabs of files that import others come before the tabs of those others: a tab stands by the
depth of its file, and at equal depth by its path. Tabs without a path come last.
-/
namespace EditorTabs.Session

def referencesAll (host : Host) : List Text → Session → Outcome ImportGraph
  | [], session => (.ok [], session)
  | path :: rest, session =>
    match session.references host path with
    | (.error fault, after) => (.error fault, after)
    | (.ok found, after) =>
      match referencesAll host rest after with
      | (.error fault, last) => (.error fault, last)
      | (.ok graph, last) => (.ok ((path, found) :: graph), last)

/-- The graph of the files of tabs. It becomes the session's graph once it is complete. -/
def buildGraph (host : Host) (tabs : List Tab) (session : Session) : Outcome ImportGraph :=
  match referencesAll host (graphFiles (tabs.map Tab.path)) session with
  | (.error fault, after) => (.error fault, after)
  | (.ok graph, after) => (.ok graph, { after with graph })

def edges (host : Host) (tabs : List Tab) (session : Session) : Outcome ImportGraph :=
  match session.buildGraph host tabs with
  | (.error fault, after) => (.error fault, after)
  | (.ok graph, after) => (.ok (graph.edges (.ofList (Tab.files tabs))), after)

def depths (host : Host) (tabs : List Tab) (session : Session) : Outcome (Assoc Text Nat) :=
  match session.edges host tabs with
  | (.error fault, after) => (.error fault, after)
  | (.ok edges, after) => (.ok (edges.depths edges.keys), after)

/-- Whether a tab may stand before another one: by depth, then by path; without a path, last. -/
def mayPrecede (depths : Assoc Text Nat) (a b : Tab) : Bool :=
  match a.file?, b.file? with
  | none, none => true
  | none, some _ => false
  | some _, none => true
  | some p, some q =>
    let depthP := (depths.get? p).getD 0
    let depthQ := (depths.get? q).getD 0
    depthP < depthQ || depthP = depthQ && decide (p ≤ q)

def order (host : Host) (tabs : List Tab) (session : Session) : Outcome (List Tab) :=
  match session.depths host tabs with
  | (.error fault, after) => (.error fault, after)
  | (.ok depths, after) => (.ok (tabs.mergeSort (mayPrecede depths)), after)

def depthsOfGroups (host : Host) : List Members → Assoc Text Nat → Session →
    Outcome (Assoc Text Nat)
  | [], found, session => (.ok found, session)
  | (_, members) :: rest, found, session =>
    match session.depths host members with
    | (.error fault, after) => (.error fault, after)
    | (.ok depths, after) => depthsOfGroups host rest (found.putAll depths) after

/-- The depths of all files, each group by itself; a file in several groups has the depth of the
last. -/
def groupDepths (host : Host) (tabs : List Tab) (session : Session) : Outcome (Assoc Text Nat) :=
  depthsOfGroups host (groupTabs tabs) [] session

end EditorTabs.Session
