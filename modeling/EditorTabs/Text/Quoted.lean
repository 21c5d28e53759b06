import EditorTabs.Text.Hex
import EditorTabs.Text.Printable

/-!
# Quoted texts in messages

A message quotes a text in single quotes, or in double quotes when it has a single quote and no
double one. The quote in use and the backslash are escaped, and so is what is not printable.
-/
namespace EditorTabs.Text

/-- The quote mark around a text: single unless only single quotes occur inside. -/
def quoteMark (s : Text) : CodePoint :=
  if s.contains '\'' && !s.contains '"' then '"' else '\''

def quoteChar (mark c : CodePoint) : Text :=
  if c = mark ∨ c = '\\' then ['\\', c]
  else if c = '\t' then ['\\', 't']
  else if c = '\n' then ['\\', 'n']
  else if c = '\r' then ['\\', 'r']
  else if isPrintable c then [c]
  else if c.toNat < 0x100 then '\\' :: 'x' :: hexDigits 2 c.toNat
  else if c.toNat < 0x10000 then '\\' :: 'u' :: hexDigits 4 c.toNat
  else '\\' :: 'U' :: hexDigits 8 c.toNat

def quote (s : Text) : Text :=
  quoteMark s :: s.flatMap (quoteChar (quoteMark s)) ++ [quoteMark s]

end EditorTabs.Text
