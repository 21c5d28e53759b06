import EditorTabs.Text.Basic

/-!
# Line ends

Texts from settings and tab lists may end their lines in any of the three usual ways.
-/
namespace EditorTabs.Text

/-- Every line end as a single line feed: a carriage return with the line feed after it, if there
is one, becomes one line feed. -/
def unifyLineEnds : Text → Text
  | [] => []
  | .char '\r' :: .char '\n' :: rest => '\n' :: unifyLineEnds rest
  | .char '\r' :: rest => '\n' :: unifyLineEnds rest
  | c :: rest => c :: unifyLineEnds rest

end EditorTabs.Text
