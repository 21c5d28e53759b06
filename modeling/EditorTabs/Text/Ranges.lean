import EditorTabs.Text.Basic

/-!
# Character classes as tables of code point ranges

A class of code points is a list of inclusive ranges of code points. Membership is a plain search,
so a statement about a class is a statement about its list.
-/
namespace EditorTabs.Text

abbrev Ranges := List (Nat × Nat)

def Ranges.holds (table : Ranges) (c : CodePoint) : Bool :=
  table.any fun range => range.1 ≤ c.toNat && c.toNat ≤ range.2

end EditorTabs.Text
