import EditorTabs.Text.Basic

/-!
# Sets of texts

A set of texts is kept as its members in code point order, each once.
-/
namespace EditorTabs.Text

/-- A list without the later copies of its members. -/
def distinct {α : Type} [DecidableEq α] : List α → List α
  | [] => []
  | a :: rest => a :: (distinct rest).filter (· ≠ a)

def sortedSet (texts : List Text) : List Text :=
  (distinct texts).mergeSort fun a b => decide (a ≤ b)

end EditorTabs.Text
