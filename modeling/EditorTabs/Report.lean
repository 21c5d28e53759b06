import EditorTabs.Json.Writer
import EditorTabs.Strategy

/-!
# Reports

What a command shows: the ordered tabs or the import graph, as lines or as a JSON value.
-/
namespace EditorTabs

def unlines (lines : List Text) : Text :=
  lines.flatMap (· ++ "\n")

def Group.toJson : Group → Json
  | .text name => .text name
  | .number value => .int value
  | .flag value => .bool value
  | .none => .null

def Group.heading : Group → Text
  | .text name => name
  | .number value => Text.ofInt value
  | .flag true => "True"
  | .flag false => "False"
  | .none => "None"

def progressLine (message : Text) (done : Bool) : Text :=
  (if done then "  [done] " else "  [....] ") ++ message

/-- The lines for warnings, each once. -/
def warningLines (warnings : List Text) : List Text :=
  (Text.distinct warnings).map ("warning: " ++ ·)

structure OrderReport where
  strategy : Strategy
  groups : List Arranged
  depths : Assoc Text Nat

namespace OrderReport

def depth? (report : OrderReport) (tab : Tab) : Option Nat :=
  tab.path.bind report.depths.get?

def tabJson (report : OrderReport) (tab : Tab) : Json :=
  let label := if tab.label = [] then none else some (Json.text tab.label)
  let depth := (report.depth? tab).map fun depth => Json.int depth
  .object <|
    ("path", (tab.path.map Json.text).getD .null)
      :: (Json.membersOf "label" label ++ Json.membersOf "depth" depth)

def groupJson (report : OrderReport) (arranged : Arranged) : Json :=
  .object
    [("group", arranged.group.toJson), ("changed", .bool arranged.changed),
     ("files", .array (arranged.tabs.map report.tabJson))]

def toJson (report : OrderReport) : Json :=
  .object
    [("strategy", .text report.strategy.key), ("name", .text report.strategy.name),
     ("groups", .array (report.groups.map report.groupJson))]

def tabName (tab : Tab) : Text :=
  match tab.file? with
  | some path => path
  | none => if tab.label = [] then "-" else tab.label

def tabLine (report : OrderReport) (tab : Tab) : Text :=
  match report.depth? tab with
  | some depth => tabName tab ++ "\t" ++ Text.ofNat depth
  | none => tabName tab

def groupLines (report : OrderReport) (arranged : Arranged) : List Text :=
  (if 1 < report.groups.length then ["[group " ++ arranged.group.heading ++ "]"] else [])
    ++ arranged.tabs.map report.tabLine

def toLines (report : OrderReport) : List Text :=
  report.groups.flatMap report.groupLines

end OrderReport

/-- The import edges among tabs and the depths of their files. -/
structure GraphReport where
  edges : ImportGraph
  depths : Assoc Text Nat

namespace GraphReport

def pairs (report : GraphReport) : List (Text × Text) :=
  report.edges.flatMap fun (source, targets) => targets.map (source, ·)

def ranked (report : GraphReport) : List (Text × Nat) :=
  report.depths.mergeSort fun a b => a.2 < b.2 || a.2 = b.2 && decide (a.1 ≤ b.1)

def toJson (report : GraphReport) : Json :=
  .object
    [("edges", .array (report.pairs.map fun (source, target) =>
        .object [("from", .text source), ("to", .text target)])),
     ("depths", .object (report.depths.map fun (path, depth) => (path, .int depth)))]

def toLines (report : GraphReport) : List Text :=
  (report.pairs.map fun (source, target) => source ++ " -> " ++ target)
    ++ report.ranked.map fun (path, depth) => Text.ofNat depth ++ "\t" ++ path

end GraphReport

end EditorTabs
