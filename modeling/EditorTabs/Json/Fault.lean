import EditorTabs.Text.Basic

/-!
# Faults of a JSON text

A text that is no JSON is malformed at one place. A well-formed text can still be refused, for
nesting too deep or for a whole number with too many digits.
-/
namespace EditorTabs.Json

inductive Problem where
  | byteOrderMark
  | value
  | propertyName
  | colon
  | comma
  | extraData
  | unterminatedText
  | controlCharacter
  | escape
  | unicodeEscape
  deriving DecidableEq, Repr

/-- A problem and its place: the number of code points before it, and its line and column. -/
structure Malformed where
  problem : Problem
  position : Nat
  line : Nat
  column : Nat
  deriving DecidableEq, Repr

inductive Container where
  | array
  | object
  deriving DecidableEq, Repr

inductive Fault where
  | malformed (place : Malformed)
  | tooDeep (container : Container)
  | tooManyDigits (count : Nat)
  deriving DecidableEq, Repr

abbrev lineFeed : CodePoint := '\n'

def Malformed.locate (text : Text) (problem : Problem) (position : Nat) : Malformed :=
  let before := text.take position
  { problem, position
    line := before.count lineFeed + 1
    column := (before.reverse.takeWhile fun c => c ≠ lineFeed).length + 1 }

def Problem.message : Problem → Text
  | .byteOrderMark => "Unexpected UTF-8 BOM (decode using utf-8-sig)"
  | .value => "Expecting value"
  | .propertyName => "Expecting property name enclosed in double quotes"
  | .colon => "Expecting ':' delimiter"
  | .comma => "Expecting ',' delimiter"
  | .extraData => "Extra data"
  | .unterminatedText => "Unterminated string starting at"
  | .controlCharacter => "Invalid control character at"
  | .escape => "Invalid \\escape"
  | .unicodeEscape => "Invalid \\uXXXX escape"

def Malformed.message (place : Malformed) : Text :=
  place.problem.message ++ ": line " ++ Text.ofNat place.line ++ " column "
    ++ Text.ofNat place.column ++ " (char " ++ Text.ofNat place.position ++ ")"

/-- The most digits a whole number may have. -/
def digitLimit : Nat := 4300

def tooManyDigitsMessage (count : Nat) : Text :=
  "Exceeds the limit (" ++ Text.ofNat digitLimit
    ++ " digits) for integer string conversion: value has " ++ Text.ofNat count
    ++ " digits; use sys.set_int_max_str_digits() to increase the limit"

def Container.name : Container → Text
  | .array => "array"
  | .object => "object"

def Fault.message : Fault → Text
  | .malformed place => place.message
  | .tooDeep container =>
    "maximum recursion depth exceeded while decoding a JSON " ++ container.name
      ++ " from a unicode string"
  | .tooManyDigits count => tooManyDigitsMessage count

end EditorTabs.Json
