import EditorTabs.CommandLine.Grammar
import EditorTabs.Strategy

/-!
# Invocations

The command line of the program: what it takes, the texts of its help, and what it asks for.
-/
namespace EditorTabs.CommandLine

def rootOption : OptionSpec := { names := ["--root"], takesValue := true }

def strategyOption : OptionSpec :=
  { names := ["--strategy"], takesValue := true, choices := Strategy.keys }

/-- The name of an alias configuration; it may be given again. -/
def aliasOption : OptionSpec := { names := ["--alias-config"], takesValue := true }

def tabsOption : OptionSpec := { names := ["--tabs"], takesValue := true }

def jsonOption : OptionSpec := { names := ["--json"], takesValue := false }

def explainOption : OptionSpec := { names := ["--explain"], takesValue := false }

def outOption : OptionSpec := { names := ["--out"], takesValue := true }

def mainGrammar : Grammar where
  program := "taborder"
  usage :=
    ["usage: taborder [-h] [--root ROOT]",
     "                [--strategy \x7bfileSystem,imports,alphabetical\x7d]",
     "                [--alias-config ALIAS_CONFIG]",
     "                \x7border,graph\x7d ..."]
  description :=
    ["Order open editor tabs",
     "",
     "positional arguments:",
     "  \x7border,graph\x7d",
     "    order               Print the sorted tab order",
     "    graph               Show import edges between open files",
     "",
     "options:",
     "  -h, --help            show this help message and exit",
     "  --root ROOT           Workspace root (default: .)",
     "  --strategy \x7bfileSystem,imports,alphabetical\x7d",
     "                        Sort strategy (default: settings file, then",
     "                        fileSystem)",
     "  --alias-config ALIAS_CONFIG",
     "                        Alias configuration file name, relative to the root",
     "                        (repeatable)"]
  options := [helpOption, rootOption, strategyOption, aliasOption]
  commands := ["order", "graph"]

def orderGrammar : Grammar where
  program := "taborder order"
  usage :=
    ["usage: taborder order [-h] [--tabs TABS] [--json] [--explain] [--out OUT]",
     "                      [paths ...]"]
  description :=
    ["positional arguments:",
     "  paths        Open files, in tab order (relative to the current directory)",
     "",
     "options:",
     "  -h, --help   show this help message and exit",
     "  --tabs TABS  JSON tab list with path/group entries (paths relative to",
     "               --root)",
     "  --json       Emit JSON",
     "  --explain    Show import depth per file (imports strategy)",
     "  --out OUT    Also write JSON output (relative to workspace/ or absolute)"]
  options := [helpOption, tabsOption, jsonOption, explainOption, outOption]

def graphGrammar : Grammar where
  program := "taborder graph"
  usage := ["usage: taborder graph [-h] [--tabs TABS] [--json] [paths ...]"]
  description :=
    ["positional arguments:",
     "  paths        Open files, in tab order (relative to the current directory)",
     "",
     "options:",
     "  -h, --help   show this help message and exit",
     "  --tabs TABS  JSON tab list with path/group entries (paths relative to",
     "               --root)",
     "  --json       Emit JSON"]
  options := [helpOption, tabsOption, jsonOption]

structure Inputs where
  paths : List Text
  tabList : Option Text
  json : Bool
  deriving DecidableEq, Repr

inductive Command where
  | order (inputs : Inputs) (explain : Bool) (out : Option Text)
  | graph (inputs : Inputs)
  deriving DecidableEq, Repr

def Command.inputs : Command → Inputs
  | .order inputs _ _ => inputs
  | .graph inputs => inputs

/-- What a command line asks for. The root and an alias file have no value when two dashes stood for
it in the option's own word, which only older parsers take away. -/
structure Invocation where
  root : Option Text
  strategy : Option Text
  aliasFiles : List (Option Text)
  command : Option Command
  deriving DecidableEq, Repr

/-- The value of an option, if it was given one that is not empty. -/
def filledValue? (reading : Reading) (option : OptionSpec) : Option Text :=
  (reading.lastOf? option).join.filter (· ≠ [])

def inputsOf (reading : Reading) : Inputs where
  paths := reading.operands
  tabList := filledValue? reading tabsOption
  json := reading.has jsonOption

/-- A command with the words after it, and those of them that mean nothing. -/
def readCommand (name : Text) (words : List Text) : Except Stop (Command × List Text) :=
  if name = "order" then
    (orderGrammar.read words).map fun reading =>
      (.order (inputsOf reading) (reading.has explainOption) (filledValue? reading outOption),
        reading.extras)
  else
    (graphGrammar.read words).map fun reading => (.graph (inputsOf reading), reading.extras)

def invocationOf (reading : Reading) (command : Option Command) : Invocation where
  root := (reading.lastOf? rootOption).getD (some Path.here)
  strategy := filledValue? reading strategyOption
  aliasFiles := reading.valuesOf aliasOption
  command

def accept (extras : List Text) (invocation : Invocation) : Except Stop Invocation :=
  if extras = [] then .ok invocation
  else .error (.misuse mainGrammar (.unrecognized extras))

def Invocation.read (words : List Text) : Except Stop Invocation :=
  match mainGrammar.read words with
  | .error stop => .error stop
  | .ok reading =>
    match reading.command with
    | none => accept reading.extras (invocationOf reading none)
    | some (name, rest) =>
      match readCommand name rest with
      | .error stop => .error stop
      | .ok (command, extras) =>
        accept (reading.extras ++ extras) (invocationOf reading (some command))

end EditorTabs.CommandLine
