import EditorTabs.Text.Utf8

/-!
# Previews

A message shows no more than a given number of bytes of a long text.
-/
namespace EditorTabs.Text

/-- How many of `size` bytes a limit keeps; a negative limit counts from the end. -/
def keptBytes (size : Nat) (limit : Int) : Nat :=
  if limit < 0 then (size + limit).toNat else limit.toNat

/-- The text itself when it fits the limit, and else what is left of it when the bytes past the
limit are cut off and no broken character is kept, with three dots. -/
def preview (s : Text) (limit : Int) : Text :=
  let bytes := Utf8.encode s
  if bytes.length ≤ limit then s
  else Utf8.decodeDropping none (bytes.take (keptBytes bytes.length limit)) ++ "..."

end EditorTabs.Text
