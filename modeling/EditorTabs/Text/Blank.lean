import EditorTabs.Text.Ranges

/-!
# Blank characters

The white space of the Unicode standard together with the four information separators
U+001C to U+001F. Zero-width characters are not blank.
-/
namespace EditorTabs.Text

def blankRanges : Ranges :=
  [(0x9, 0xD), (0x1C, 0x20), (0x85, 0x85), (0xA0, 0xA0), (0x1680, 0x1680), (0x2000, 0x200A),
   (0x2028, 0x2029), (0x202F, 0x202F), (0x205F, 0x205F), (0x3000, 0x3000)]

def isBlank (c : CodePoint) : Bool :=
  blankRanges.holds c

def trim (s : Text) : Text :=
  ((s.dropWhile isBlank).reverse.dropWhile isBlank).reverse

/-- A text with nothing but blanks in it, the empty text included. -/
def isAllBlank (s : Text) : Bool :=
  s.all isBlank

end EditorTabs.Text
