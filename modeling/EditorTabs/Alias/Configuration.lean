import EditorTabs.Json.Value
import EditorTabs.Text.Blank

/-!
# Alias configurations

A configuration names its aliases and their targets among its compiler options. A star at the end
of either is a wildcard and is left out. What has not the shape of an alias is passed over.
-/
namespace EditorTabs.Alias

/-- A text without one star at its end. -/
def stripWildcard (value : Text) : Text :=
  if value.getLast? = some '*' then value.dropLast else value

/-- What a configuration says: the directory its targets are relative to, if any, and the
aliases. -/
structure Configuration where
  baseUrl : Option Text := none
  aliases : Assoc Text Text := []
  deriving DecidableEq, Repr

/-- The target of an alias: a text, or the first of several. -/
def target? : Json → Option Text
  | .text target => some target
  | .array (.text target :: _) => some target
  | _ => none

def aliasesOf (members : List (Text × Json)) : Assoc Text Text :=
  members.foldl
    (fun aliases (name, value) =>
      match target? value with
      | some target => aliases.put (stripWildcard name) (stripWildcard target)
      | none => aliases)
    []

def Configuration.ofJson (payload : Json) : Configuration :=
  match payload.member? "compilerOptions" with
  | some (.object options) =>
    { baseUrl :=
        ((Json.memberOf? "baseUrl" options).bind Json.text?).filter (!Text.isAllBlank ·)
      aliases :=
        match Json.memberOf? "paths" options with
        | some (.object paths) => aliasesOf paths
        | _ => [] }
  | _ => {}

end EditorTabs.Alias
