import EditorTabs.Fault
import EditorTabs.Files.Tree
import EditorTabs.Json.Comments
import EditorTabs.Json.Reader
import EditorTabs.Text.Lines

/-!
# Documents

Settings and tab lists are written by people: UTF-8 texts whose lines may end in any way.
-/
namespace EditorTabs.Files

def readDocument (tree : Tree) (cwd path : Text) : Except EditorTabs.Fault Text :=
  match tree.read cwd path with
  | .error (.path cause) => .error (.impossible cause)
  | .error (.system fault) => .error (.unreadable (.file fault))
  | .ok bytes =>
    match Text.Utf8.decode bytes with
    | .error fault => .error (.unreadable (.encoding fault))
    | .ok text => .ok (Text.unifyLineEnds text)

/-- The value of a document; its comments are left out where they are allowed. -/
def readValue (tree : Tree) (cwd path : Text) (comments : Bool)
    (limit : Nat := Json.commonNesting) : Except EditorTabs.Fault Json :=
  match readDocument tree cwd path with
  | .error fault => .error fault
  | .ok text =>
    (Json.read (if comments then Json.stripComments text else text) limit).mapError Fault.ofJson

end EditorTabs.Files
