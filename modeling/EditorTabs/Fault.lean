import EditorTabs.Files.Fault
import EditorTabs.Json.Fault
import EditorTabs.Text.Quoted
import EditorTabs.Text.Utf8

/-!
# Faults

Why an operation has no answer. A file that cannot be read, decoded or parsed is unreadable; where
a file may be left out this becomes a warning. All other faults end the operation.
-/
namespace EditorTabs

inductive Unreadable where
  | file (fault : Files.Fault)
  | encoding (fault : Text.Utf8.Fault)
  | malformed (place : Json.Malformed)
  deriving DecidableEq, Repr

/-- Why an operation has no answer. -/
inductive Fault where
  /-- A file is unreadable. -/
  | unreadable (cause : Unreadable)
  /-- A file is to be read whose path no file can have. -/
  | impossible (cause : Files.PathFault)
  /-- A file cannot be written. -/
  | unwritable (fault : Files.Fault)
  /-- Containers stand too deep inside each other. -/
  | tooDeep (container : Json.Container)
  /-- A whole number has too many digits. -/
  | tooManyDigits (count : Nat)
  /-- A part of a name has digits only, but not of a decimal number. -/
  | notDecimal (digits : Text)
  /-- No strategy has this key. -/
  | unknownStrategy (key : Text) (known : List Text)
  /-- A tab list is unreadable. -/
  | tabList (path : Text) (cause : Unreadable)
  /-- A tab list is no array. -/
  | tabListShape (path : Text)
  /-- An entry of a tab list is neither a text nor an object. -/
  | tabEntry (written : Text)
  /-- The root of a workspace is asked for without a path, as only older option parsers let it. -/
  | missingRoot
  /-- An alias configuration is asked for without a name, as only older option parsers let it. -/
  | missingName
  deriving DecidableEq, Repr

def Unreadable.message : Unreadable → Text
  | .file fault => fault.message
  | .encoding fault => fault.message
  | .malformed place => place.message

def shownDigits : Nat := 200

/-- How much of a wrong entry a message shows, in bytes. -/
def shownEntry : Nat := 120

def Fault.message : Fault → Text
  | .unreadable cause => cause.message
  | .impossible cause => cause.message
  | .unwritable fault => fault.message
  | .tooDeep container => (Json.Fault.tooDeep container).message
  | .tooManyDigits count => Json.tooManyDigitsMessage count
  | .notDecimal digits =>
    "invalid literal for int() with base 10: "
      ++ (Text.quote digits).take shownDigits
  | .unknownStrategy key known =>
    "Unknown sort strategy: " ++ Text.quote key ++ " (expected one of "
      ++ Text.separated ", " known ++ ")"
  | .tabList path cause => "Failed to read tab list " ++ path ++ ": " ++ cause.message
  | .tabListShape path => "Invalid tab list " ++ path ++ ": expected a JSON array"
  | .tabEntry written => "Invalid tab entry: " ++ written
  | .missingRoot => "expected str, bytes or os.PathLike object, not list"
  | .missingName => "join() argument must be str, bytes, or os.PathLike object, not 'list'"

/-- Whether a fault lies in what was given, so that a command reports it; the others (a file
operation that failed, nesting without end, a path or a name that is missing) are passed on. -/
def Fault.isReported : Fault → Bool
  | .unreadable (.file _) => false
  | .unwritable _ => false
  | .tooDeep _ => false
  | .missingRoot | .missingName => false
  | _ => true

def Fault.ofJson : Json.Fault → Fault
  | .malformed place => .unreadable (.malformed place)
  | .tooDeep container => .tooDeep container
  | .tooManyDigits count => .tooManyDigits count

end EditorTabs
