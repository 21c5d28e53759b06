import EditorTabs.Decimal.Notation
import EditorTabs.Json.Value
import EditorTabs.Text.Quoted

/-!
# Values as plain text

A setting that should be a text but is another value is taken for the plain text of that value. A
text stands for itself; inside a container it is quoted.
-/
namespace EditorTabs.Json

mutual

def plainInside : Json → Text
  | .null => "None"
  | .bool true => "True"
  | .bool false => "False"
  | .int n => Text.ofInt n
  | .real x => x.write Decimal.plainNames
  | .text s => Text.quote s
  | .array items => "[" ++ Text.separated ", " (plainItems items) ++ "]"
  | .object members => "\x7b" ++ Text.separated ", " (plainMembers members) ++ "\x7d"

def plainItems : List Json → List Text
  | [] => []
  | item :: rest => plainInside item :: plainItems rest

def plainMembers : List (Text × Json) → List Text
  | [] => []
  | (key, value) :: rest =>
    (Text.quote key ++ ": " ++ plainInside value) :: plainMembers rest

end

def plain : Json → Text
  | .text s => s
  | value => plainInside value

end EditorTabs.Json
