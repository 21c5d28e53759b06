import EditorTabs.Files.Document
import EditorTabs.Json.Writer
import EditorTabs.Tab
import EditorTabs.Text.Blank
import EditorTabs.Text.Preview

/-!
# Tab lists

A tab list is an array with an entry for each tab: a path, or an object with a path, a group and a
label. Paths are taken from the root of the workspace. A group that is no text, number or flag is
named by its written form.
-/
namespace EditorTabs.TabList

def pathOf (root : Text) (members : List (Text × Json)) : Option Text :=
  match Json.memberOf? "path" members with
  | some (.text path) =>
    if Text.isAllBlank path then none else some (Path.normalize (Path.join root path))
  | _ => none

def groupOf : Json → Group
  | .text name => .text name
  | .int value => .number value
  | .bool value => .flag value
  | value => .text value.sortMembers.write

def tabOf (root : Text) (members : List (Text × Json)) : Tab where
  path := pathOf root members
  group := ((Json.memberOf? "group" members).map groupOf).getD (.number 0)
  label := ((Json.memberOf? "label" members).bind Json.text?).getD []

def entry (root : Text) : Json → Except Fault Tab
  | .text path => .ok (tabOf root [("path", .text path)])
  | .object members => .ok (tabOf root members)
  | value => .error (.tabEntry (Text.preview value.write shownEntry))

/-- The tabs of entries, or the fault of the first wrong one. -/
def entries (root : Text) : List Json → Except Fault (List Tab)
  | [] => .ok []
  | value :: rest =>
    match entry root value with
    | .error fault => .error fault
    | .ok tab =>
      match entries root rest with
      | .error fault => .error fault
      | .ok tabs => .ok (tab :: tabs)

def read (tree : Files.Tree) (cwd path root : Text) (limit : Nat := Json.commonNesting) :
    Except Fault (List Tab) :=
  let shown := Path.tidy path
  match Files.readValue tree cwd shown false limit with
  | .error (.unreadable (.encoding fault)) => .error (.unreadable (.encoding fault))
  | .error (.unreadable cause) => .error (.tabList shown cause)
  | .error fault => .error fault
  | .ok (.array items) => entries root items
  | .ok _ => .error (.tabListShape shown)

end EditorTabs.TabList
