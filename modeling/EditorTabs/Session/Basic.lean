import EditorTabs.Alias.Loading
import EditorTabs.ImportGraph.Basic
import EditorTabs.Reference.Basic
import EditorTabs.Resolution

/-!
# Sessions

The order by imports remembers what it has found out: the references of each file, the alias table,
the last graph, and its warnings. A session holds all that. Nothing but an explicit invalidation
drops any of it, so a file that was edited keeps its old references until then.
-/
namespace EditorTabs

structure Session where
  /-- The files that each file refers to, as they were found. -/
  cache : Assoc Text (List Text) := []
  /-- The alias table. -/
  table : Alias.Table := {}
  /-- The graph that was built last. -/
  graph : ImportGraph := []
  /-- The warnings and the requests so far. -/
  journal : Journal := {}
  deriving DecidableEq, Repr

/-- The outcome of a call in a session: an answer or a fault, and the session after it. -/
abbrev Outcome (α : Type) := Except Fault α × Session

namespace Session

def fresh : Session := {}

/-- A session that has forgotten all but the requests it made. -/
def invalidate (session : Session) : Session :=
  { journal := { requests := session.journal.requests } }

def ask (session : Session) (request : Request) : Session :=
  { session with journal := session.journal.ask request }

def warnings (session : Session) : List Warning :=
  session.journal.warnings

def loadAliases (host : Host) (session : Session) : Outcome Alias.Table :=
  let loaded := Alias.load host none session.table session.journal
  let after := { session with table := loaded.table, journal := loaded.journal }
  match loaded.fault with
  | some fault => (.error fault, after)
  | none => (.ok loaded.table, after)

/-- The text of a source file: that which is being edited, or else that of the file. An unreadable
file has no text and leaves a warning. -/
def readText (host : Host) (path : Text) (session : Session) : Option Text × Session :=
  let asked := session.ask (.buffer path)
  match host.buffer path with
  | some text => (some text, asked)
  | none =>
    let read := asked.ask (.read path)
    match host.readText path with
    | .ok text => (some text, read)
    | .error cause => (none, { read with journal := read.journal.warn (.source path cause) })

/-- The alias table as far as a reference wants it. -/
def tableFor (host : Host) (module : Text) (session : Session) : Outcome Alias.Table :=
  if Resolution.needsAliases module then session.loadAliases host else (.ok session.table, session)

def resolve (host : Host) (importer module : Text) (session : Session) :
    Outcome (Option Text) :=
  match session.tableFor host module with
  | (.error fault, after) => (.error fault, after)
  | (.ok table, after) =>
    let probes := Resolution.probed host.isFile (some table) module importer
    (.ok (Resolution.resolve host.isFile (some table) module importer),
      { after with journal := after.journal.askAll (probes.map .isFile) })

def resolveAll (host : Host) (importer : Text) : List Text → Session → Outcome (List Text)
  | [], session => (.ok [], session)
  | module :: rest, session =>
    match session.resolve host importer module with
    | (.error fault, after) => (.error fault, after)
    | (.ok file, after) =>
      match resolveAll host importer rest after with
      | (.error fault, last) => (.error fault, last)
      | (.ok files, last) => (.ok (file.toList ++ files), last)

/-- The set of files that references lead to, visited in a given order, put into the cache. -/
def resolveInto (host : Host) (path : Text) (modules : List Text) (session : Session) :
    Outcome (List Text) :=
  match resolveAll host path modules session with
  | (.error fault, after) => (.error fault, after)
  | (.ok files, after) =>
    let found := Text.sortedSet files
    (.ok found, { after with cache := after.cache.put path found })

def modules (text : Option Text) : List Text :=
  match text with
  | some text => Reference.set text
  | none => []

/-- The set of files that a file refers to: what the cache holds, or else what its text says. -/
def references (host : Host) (path : Text) (session : Session) : Outcome (List Text) :=
  match session.cache.get? path with
  | some found => (.ok found, session)
  | none =>
    let (text, read) := session.readText host path
    resolveInto host path (modules text) read

end Session

end EditorTabs
