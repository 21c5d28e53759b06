import EditorTabs.Reference.Pattern
import EditorTabs.Text.Sorted

/-!
# All references of a text
-/
namespace EditorTabs.Reference

def list (text : Text) : List Text :=
  Pattern.all.flatMap fun pattern => pattern.scan text

def set (text : Text) : List Text :=
  Text.sortedSet (list text)

end EditorTabs.Reference
