import EditorTabs.Artifact
import EditorTabs.CommandLine.Invocation
import EditorTabs.Host.Local
import EditorTabs.Report
import EditorTabs.Settings
import EditorTabs.TabList

/-!
# Running a command line

A run reads the settings and the tabs, orders them or finds their imports, and reports. It works on
a file tree and is a value: what was written to the two output channels, the tree afterwards, what
the host was asked, and the exit status, or the fault that ended the run. A fault in what was given
is reported with status two; the others end the run. The output channels take any text.
-/
namespace EditorTabs.CommandLine

structure Run where
  status : Except Fault Nat
  output : Text := []
  errors : Text := []
  tree : Files.Tree
  requests : List Request := []

namespace Run

def afterErrors (lines : List Text) (run : Run) : Run :=
  { run with errors := unlines lines ++ run.errors }

def ofFault (tree : Files.Tree) (fault : Fault) : Run :=
  if fault.isReported then { status := .ok 2, errors := unlines ["error: " ++ fault.message], tree }
  else { status := .error fault, tree }

end Run

def Grammar.helpText (grammar : Grammar) : Text :=
  unlines (grammar.usage ++ [] :: grammar.description)

def Stop.run (tree : Files.Tree) : Stop → Run
  | .help grammar => { status := .ok 0, output := grammar.helpText, tree }
  | .misuse grammar cause =>
    { status := .ok 2
      errors := unlines (grammar.usage ++ [grammar.program ++ ": error: " ++ cause.message])
      tree }

/-- How deep the containers in each sort of document may stand inside each other. What is left of
the limit on calls in calls depends on where each is read. -/
structure Nesting where
  settings : Nat := Json.commonNesting
  tabList : Nat := Json.commonNesting
  aliases : Nat := Json.commonNesting

def collectTabs (tree : Files.Tree) (cwd root : Text) (inputs : Inputs)
    (limit : Nat := Json.commonNesting) : Except Fault (List Tab) :=
  let paths := tabsOfPaths cwd inputs.paths (.number 0)
  match inputs.tabList with
  | none => .ok paths
  | some file => (TabList.read tree cwd file root limit).map (· ++ paths)

def reportText (json : Bool) (value : Json) (lines : List Text) : Text :=
  if json then value.writeLines ++ "\n" else unlines lines

def sessionWarnings (session : Session) : List Text :=
  warningLines (session.warnings.map Warning.message)

def orderProgress (strategy : Strategy) (tabs : List Tab) : Text :=
  "Ordering " ++ Text.ofNat tabs.length ++ " tabs (" ++ strategy.name ++ ")"

def graphProgress (tabs : List Tab) : Text :=
  "Building import graph for " ++ Text.ofNat tabs.length ++ " tabs"

def orderReport (host : Host) (strategy : Strategy) (explain : Bool) (session : Session) :
    Outcome OrderReport :=
  match arrange strategy host host.tabs session with
  | (.error fault, after) => (.error fault, after)
  | (.ok groups, after) =>
    if explain ∧ strategy = .imports then
      match after.groupDepths host host.tabs with
      | (.error fault, last) => (.error fault, last)
      | (.ok depths, last) => (.ok { strategy, groups, depths }, last)
    else (.ok { strategy, groups, depths := [] }, after)

/-- The artifact of a report, if one is asked for: the line about it, and the tree after it. -/
def writeReport (tree : Files.Tree) (cwd : Text) (out : Option Text) (value : Json) :
    Except Fault (List Text) × Files.Tree :=
  match out with
  | none => (.ok [], tree)
  | some name =>
    match Artifact.write tree cwd name value with
    | (.error fault, after) => (.error fault, after)
    | (.ok path, after) => (.ok ["Wrote " ++ path], after)

def brokenOrder (tree : Files.Tree) (tabs : List Tab) (strategy : Strategy) (fault : Fault)
    (session : Session) : Run :=
  { Run.ofFault tree fault with requests := session.journal.requests }.afterErrors
    [progressLine (orderProgress strategy tabs) false]

def runOrder (tree : Files.Tree) (cwd : Text) (host : Host) (strategy : Strategy) (json : Bool)
    (explain : Bool) (out : Option Text) : Run :=
  match orderReport host strategy explain .fresh with
  | (.error fault, session) => brokenOrder tree host.tabs strategy fault session
  | (.ok report, session) =>
    let run : Run :=
      match writeReport tree cwd out report.toJson with
      | (.error fault, after) => Run.ofFault after fault
      | (.ok lines, after) =>
        { status := .ok 0, tree := after
          errors :=
            unlines (lines ++ if strategy = .imports then sessionWarnings session else []) }
    { run with
      output := reportText json report.toJson report.toLines
      requests := session.journal.requests }.afterErrors
        [progressLine (orderProgress strategy host.tabs) false,
          progressLine (orderProgress strategy host.tabs) true]

def graphReport (host : Host) (session : Session) : Outcome GraphReport :=
  match session.edges host host.tabs with
  | (.error fault, after) => (.error fault, after)
  | (.ok edges, after) =>
    match after.depths host host.tabs with
    | (.error fault, last) => (.error fault, last)
    | (.ok depths, last) => (.ok { edges, depths }, last)

/-- The run of the command that shows the import graph, when a fault ends it. Every fault does. -/
def brokenGraph (tree : Files.Tree) (tabs : List Tab) (fault : Fault) (session : Session) :
    Run where
  status := .error fault
  errors := unlines [progressLine (graphProgress tabs) false]
  tree
  requests := session.journal.requests

def runGraph (tree : Files.Tree) (host : Host) (json : Bool) : Run :=
  match graphReport host .fresh with
  | (.error fault, session) => brokenGraph tree host.tabs fault session
  | (.ok report, session) =>
    { status := .ok 0
      output := reportText json report.toJson report.toLines
      errors :=
        unlines ([progressLine (graphProgress host.tabs) false,
          progressLine (graphProgress host.tabs) true] ++ sessionWarnings session)
      tree
      requests := session.journal.requests }

/-! ## Files that cannot be -/

/-- The files that are read to put tabs in order, in the order in which they are come to. -/
def filesRead (strategy : Strategy) (tabs : List Tab) : List Text :=
  match strategy with
  | .imports => (groupTabs tabs).flatMap fun members => Tab.files members.2
  | _ => []

/-- The files before the first one whose path no file can have, and why; if there is such a one. -/
def untilImpossible? : List Text → Option (List Text × Files.PathFault)
  | [] => none
  | path :: rest =>
    match Files.pathFault? (Path.tidy path) with
    | some cause => some ([], cause)
    | none => (untilImpossible? rest).map fun (before, cause) => (path :: before, cause)

/-- What ends work that comes to a path no file can have: a fault of the files before it, or the
path. -/
def breakAt (host : Host) (before : List Text) (cause : Files.PathFault) : Fault × Session :=
  match Session.referencesAll host before .fresh with
  | (.error fault, after) => (fault, after)
  | (.ok _, after) => (.impossible cause, after)

def Command.runOn (tree : Files.Tree) (cwd : Text) (host : Host) (key : Text) : Command → Run
  | .graph inputs =>
    match untilImpossible? (Tab.files host.tabs) with
    | some (before, cause) =>
      let (fault, session) := breakAt host before cause
      brokenGraph tree host.tabs fault session
    | none => runGraph tree host inputs.json
  | .order inputs explain out =>
    match Strategy.ofKey key with
    | .error fault => Run.ofFault tree fault
    | .ok strategy =>
      match untilImpossible? (filesRead strategy host.tabs) with
      | some (before, cause) =>
        let (fault, session) := breakAt host before cause
        brokenOrder tree host.tabs strategy fault session
      | none => runOrder tree cwd host strategy inputs.json explain out

/-- The alias configurations to try: those that are asked for, up to the first without a name, or
those of the settings. -/
def Invocation.candidates (invocation : Invocation) (settings : Settings) : List Text :=
  match invocation.aliasFiles with
  | [] => settings.aliasCandidates []
  | names => (names.takeWhile Option.isSome).filterMap id

def Invocation.hostOn (tree : Files.Tree) (cwd root : Text) (invocation : Invocation)
    (settings : Settings) (tabs : List Tab) (limit : Nat := Json.commonNesting) : Host :=
  Local.host
    { root := some root
      candidates := invocation.candidates settings
      endsUnnamed := invocation.aliasFiles.contains none
      tabs
      nesting := limit } tree cwd

def runIn (tree : Files.Tree) (cwd root : Text) (nesting : Nesting) (found : Settings.Found)
    (invocation : Invocation) (command : Command) : Run :=
  match collectTabs tree cwd root command.inputs nesting.tabList with
  | .error fault => Run.ofFault tree fault
  | .ok tabs =>
    let host := invocation.hostOn tree cwd root found.settings tabs nesting.aliases
    (command.runOn tree cwd host (found.settings.strategyKey invocation.strategy)).afterErrors
      (warningLines (found.warnings.map Warning.message))

def Invocation.rootPath? (cwd : Text) (invocation : Invocation) : Option Text :=
  invocation.root.map fun root => Path.tidy (Path.absolute cwd root)

/-- The run of an invocation. Without a command it shows the help and has status one. -/
def Invocation.run (tree : Files.Tree) (cwd : Text) (nesting : Nesting) (invocation : Invocation) :
    Run :=
  match invocation.command with
  | none => { status := .ok 1, output := mainGrammar.helpText, tree }
  | some command =>
    match invocation.rootPath? cwd with
    | none => { status := .error .missingRoot, tree }
    | some root =>
      match Settings.find tree cwd root nesting.settings with
      | .error fault => { status := .error fault, tree }
      | .ok found => runIn tree cwd root nesting found invocation command

def run (tree : Files.Tree) (cwd : Text) (words : List Text) (nesting : Nesting := {}) : Run :=
  match Invocation.read words with
  | .error stop => stop.run tree
  | .ok invocation => invocation.run tree cwd nesting

/-! ## What a run looks at -/

def Command.out? : Command → Option Text
  | .order _ _ out => out
  | .graph _ => none

/-- The paths that the run of a command looks at whatever the files hold: those of the settings,
of the tab list, and of the artifact. -/
def Invocation.fixedPaths (cwd : Text) (invocation : Invocation) : List Text :=
  match invocation.command with
  | none => []
  | some command =>
    (invocation.rootPath? cwd).toList.flatMap
        (fun root => Settings.fileNames.map (Settings.pathAt root))
      ++ command.inputs.tabList.toList
      ++ (command.out?.map fun name => (Artifact.routeOf name).path).toList

def requestedPath? : Request → Option Text
  | .isFile path | .read path => some path
  | .root | .candidates | .buffer _ => none

/-- The paths that the run of a command line looks at on a file tree. -/
def pathsOf (cwd : Text) (words : List Text) (run : Run) : List Text :=
  match Invocation.read words with
  | .error _ => []
  | .ok invocation =>
    (invocation.fixedPaths cwd ++ run.requests.filterMap requestedPath?).filter fun path =>
      (Files.pathFault? path).isNone

end EditorTabs.CommandLine
