import EditorTabs.Fault
import EditorTabs.Json.Reader
import EditorTabs.Tab

/-!
# Hosts

A host is what surrounds the ordering of tabs: the editor or the command line. It knows the
workspace and answers questions about files. A file that it cannot read it answers with an error of
the system; hosts that fail in other ways are left out here. Each question is a request, and a run
that keeps its requests in a journal shows what it looked at.
-/
namespace EditorTabs

/-- The answers of a host at one time. -/
structure Host where
  /-- The directory that relative paths start from. -/
  workingDirectory : Text
  /-- The root of the workspace, if there is one. -/
  root : Option Text
  /-- The names of alias configurations, in the order in which they are tried. -/
  candidates : List Text
  /-- Whether another configuration, without a name, is to be tried after them. -/
  endsUnnamed : Bool := false
  /-- The open tabs. -/
  tabs : List Tab
  /-- Whether a path leads to a file. -/
  isFile : Text → Bool
  /-- The text of a path that is being edited. -/
  buffer : Text → Option Text
  /-- The bytes of a file. -/
  read : Text → Except Files.Fault (List UInt8)
  /-- How deep the containers of an alias configuration may stand inside each other. -/
  nesting : Nat := Json.commonNesting

inductive Request where
  | root
  | candidates
  | isFile (path : Text)
  | buffer (path : Text)
  | read (path : Text)
  deriving DecidableEq, Repr

inductive Warning where
  /-- A configuration that is unreadable. -/
  | configuration (name : Text) (cause : Unreadable)
  /-- A configuration that is no object. -/
  | configurationShape (name : Text)
  /-- A source file that is unreadable. -/
  | source (path : Text) (cause : Unreadable)
  /-- A strategy in the settings that does not exist. -/
  | unknownStrategy (key name : Text)
  deriving DecidableEq, Repr

def Warning.message : Warning → Text
  | .configuration name cause => "Failed to parse " ++ name ++ ": " ++ cause.message
  | .configurationShape name => "Invalid " ++ name ++ ": expected a JSON object"
  | .source path cause => "Failed to read " ++ path ++ ": " ++ cause.message
  | .unknownStrategy key name =>
    "Ignoring unknown sortStrategy " ++ Text.quote key ++ " in " ++ name

structure Journal where
  warnings : List Warning := []
  requests : List Request := []
  deriving DecidableEq, Repr

namespace Journal

def ask (journal : Journal) (request : Request) : Journal :=
  { journal with requests := journal.requests ++ [request] }

def askAll (journal : Journal) (requests : List Request) : Journal :=
  { journal with requests := journal.requests ++ requests }

def warn (journal : Journal) (warning : Warning) : Journal :=
  { journal with warnings := journal.warnings ++ [warning] }

/-- The paths that were read, with those that could not be. -/
def reads (journal : Journal) : List Text :=
  journal.requests.filterMap fun
    | .read path => some path
    | _ => none

end Journal

def Host.readText (host : Host) (path : Text) : Except Unreadable Text :=
  match host.read path with
  | .error fault => .error (.file fault)
  | .ok bytes =>
    match Text.Utf8.decode bytes with
    | .error fault => .error (.encoding fault)
    | .ok text => .ok text

end EditorTabs
