import EditorTabs.Files.ErrorNumber
import EditorTabs.Text.Quoted

/-!
# Faults of file operations

The system answers an operation that fails with the number of an error. It is not asked about a path
that no file can have: one with a null in it, or with half of a surrogate pair, unless the half
stands for a byte that is no text.
-/
namespace EditorTabs.Files

/-- A file operation that failed: the number of the system's error and the path as it was given. -/
structure Fault where
  number : Int
  path : Text
  deriving DecidableEq, Repr

def Fault.noEntry (path : Text) : Fault := ⟨2, path⟩

def Fault.isDirectory (path : Text) : Fault := ⟨21, path⟩

def Fault.alreadyThere (path : Text) : Fault := ⟨17, path⟩

def tooLong : Int := 36

def Fault.message (fault : Fault) : Text :=
  "[Errno " ++ Text.ofInt fault.number ++ "] " ++ wordsOf fault.number ++ ": "
    ++ Text.quote fault.path

/-- Why no file has a path: code points in it have no bytes, from a position on, or it has a
null. -/
inductive PathFault where
  | unencodable (position : Nat) (halves : Text)
  | null
  deriving DecidableEq, Repr

def PathFault.message : PathFault → Text
  | .unencodable position halves =>
    let place :=
      match halves with
      | [half] =>
        "character '\\u" ++ Text.hexDigits 4 half.toNat ++ "' in position " ++ Text.ofNat position
      | halves =>
        "characters in position " ++ Text.ofNat position ++ "-"
          ++ Text.ofNat (position + halves.length - 1)
    "'utf-8' codec can't encode " ++ place ++ ": surrogates not allowed"
  | .null => "embedded null byte"

def isHalf : CodePoint → Bool
  | .char _ => false
  | .half _ => true

/-- Whether a code point has no bytes in a path. The halves from U+DC80 to U+DCFF stand for one byte
each. -/
def hasNoBytes (c : CodePoint) : Bool :=
  isHalf c && !(0xDC80 ≤ c.toNat && c.toNat ≤ 0xDCFF)

/-- Why no file has a path, if so. What has no bytes is told before a null, with the halves that
follow it. -/
def pathFault? (path : Text) : Option PathFault :=
  match path.findIdx? hasNoBytes with
  | some position => some (.unencodable position ((path.drop position).takeWhile isHalf))
  | none => if path.contains (.char '\x00') then some .null else none

end EditorTabs.Files
