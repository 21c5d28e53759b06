import EditorTabs.Order.Comparison
import EditorTabs.Order.Natural

/-!
# Alphabetical order

The whole paths in natural order, and tabs without a path last.
-/
namespace EditorTabs.Order

def alphabetical : Comparison :=
  .ofPaths naturalCompare

end EditorTabs.Order
