import EditorTabs.CodePoint

/-!
# Texts

A text is a list of code points, so that it can hold whatever an escape leaves in it, and every
function on texts is a function on lists.
-/
namespace EditorTabs

abbrev Text := List CodePoint

instance : LawfulBEq Text := inferInstance

namespace Text

def ofString (s : String) : Text :=
  s.toList.map .char

instance : Coe String Text := ⟨ofString⟩

/-- The string of a text, with the replacement character for every half of a surrogate pair. -/
def toString (s : Text) : String :=
  String.ofList (s.map CodePoint.toChar)

def ofNat (n : Nat) : Text :=
  (Nat.toDigits 10 n).map .char

def ofInt : Int → Text
  | .ofNat n => ofNat n
  | .negSucc n => '-' :: ofNat (n + 1)

def separated (separator : Text) : List Text → Text
  | [] => []
  | [part] => part
  | part :: parts => part ++ separator ++ separated separator parts

end Text

end EditorTabs
