import EditorTabs.Assoc
import EditorTabs.Decimal.Binary64
import EditorTabs.Text.Basic

/-!
# JSON values

Whole numbers and numbers with a fraction or an exponent are kept apart, and an object keeps its
members in the order in which their keys first came up.
-/
namespace EditorTabs

open Decimal (Binary64)

inductive Json where
  | null
  | bool (value : Bool)
  | int (value : Int)
  | real (value : Binary64)
  | text (value : Text)
  | array (items : List Json)
  | object (members : List (Text × Json))
  deriving Repr

namespace Json

def memberOf? (key : Text) (members : List (Text × Json)) : Option Json :=
  Assoc.get? key members

def member? (key : Text) : Json → Option Json
  | .object members => memberOf? key members
  | _ => none

def membersOf (key : Text) (value : Option Json) : List (Text × Json) :=
  value.toList.map (key, ·)

def text? : Json → Option Text
  | .text s => some s
  | _ => none

end Json

end EditorTabs
