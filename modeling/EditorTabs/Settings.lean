import EditorTabs.Files.Document
import EditorTabs.Host.Basic
import EditorTabs.Json.Plain
import EditorTabs.Strategy
import EditorTabs.Text.Blank

/-!
# Settings

A workspace may say in a file at its root how its tabs are ordered and where its aliases are. What
is wrong in that file is left out with a warning, and what a command asks for goes before it.
-/
namespace EditorTabs

structure Settings where
  strategy : Option Text := none
  aliasFiles : Option (List Text) := none
  deriving DecidableEq, Repr

namespace Settings

def fileNames : List Text := [".taborder.json", "taborder.json"]

def defaultAliasFiles : List Text := ["tsconfig.json", "jsconfig.json"]

/-- The texts of a value: a text alone or those of an array, trimmed, without those that are
blank. -/
def textsOf : Json → List Text
  | .text s => if Text.isAllBlank s then [] else [Text.trim s]
  | .array items =>
    items.filterMap fun
      | .text s => if Text.isAllBlank s then none else some (Text.trim s)
      | _ => none
  | _ => []

/-- The strategy that the members of a settings file ask for; one that does not exist is left out
with a warning. -/
def strategyOf (name : Text) (members : List (Text × Json)) :
    Option Text × List Warning :=
  match Json.memberOf? "sortStrategy" members with
  | some (.text s) =>
    if Text.isAllBlank s then (none, [])
    else if Text.trim s ∈ Strategy.keys then (some (Text.trim s), [])
    else (none, [.unknownStrategy s name])
  | _ => (none, [])

def ofMembers (name : Text) (members : List (Text × Json)) : Settings × List Warning :=
  let (strategy, warnings) := strategyOf name members
  ({ strategy, aliasFiles := (Json.memberOf? "aliasConfigFiles" members).map textsOf }, warnings)

structure Found where
  settings : Settings := {}
  source : Option Text := none
  warnings : List Warning := []
  deriving DecidableEq, Repr

def pathAt (root name : Text) : Text :=
  ((Path.Route.ofPath root).append (Path.Route.ofPath name)).path

/-- The settings in the first of the named files that is there. A path that is too long to look at
is a fault. -/
def findIn (tree : Files.Tree) (cwd root : Text) (limit : Nat) : List Text → Except Fault Found
  | [] => .ok {}
  | name :: rest =>
    if tree.isTooLong cwd (pathAt root name) then
      .error (.unreadable (.file ⟨Files.tooLong, pathAt root name⟩))
    else if tree.isThere cwd (pathAt root name) then
      match Files.readValue tree cwd (pathAt root name) true limit with
      | .ok (.object members) =>
        let (settings, warnings) := ofMembers name members
        .ok { settings, source := some name, warnings }
      | .ok _ => .ok { source := some name, warnings := [.configurationShape name] }
      | .error (.unreadable cause) =>
        .ok { source := some name, warnings := [.configuration name cause] }
      | .error fault => .error fault
    else findIn tree cwd root limit rest

def find (tree : Files.Tree) (cwd root : Text) (limit : Nat := Json.commonNesting) :
    Except Fault Found :=
  findIn tree cwd root limit fileNames

/-- Settings from the members of any object: a strategy that is a text, and the plain texts of an
array of alias files. -/
def ofObject (members : List (Text × Json)) : Settings where
  strategy := (Json.memberOf? "sortStrategy" members).bind Json.text?
  aliasFiles :=
    match Json.memberOf? "aliasConfigFiles" members with
    | some (.array items) => some (items.map Json.plain)
    | _ => none

def strategyKey (settings : Settings) (asked : Option Text) : Text :=
  match asked.filter (· ≠ []) with
  | some key => key
  | none => settings.strategy.getD Strategy.default.key

/-- The alias configurations to try: those that are asked for, or those of the settings. -/
def aliasCandidates (settings : Settings) (asked : List Text) : List Text :=
  match asked with
  | [] => settings.aliasFiles.getD defaultAliasFiles
  | names => names

end Settings

end EditorTabs
