import EditorTabs.Decimal.Notation
import EditorTabs.Json.Value
import EditorTabs.Text.Hex

/-!
# Writing JSON

Texts are written in ASCII. A value is written on one line, with a blank after every comma and
colon, or over several lines with one item a line and two blanks a level.
-/
namespace EditorTabs.Json

open Decimal

def unitEscape (unit : Nat) : Text :=
  '\\' :: 'u' :: Text.hexDigits 4 unit

/-- One code point of a text; beyond the first plane it takes two escapes. -/
def escapePoint (c : CodePoint) : Text :=
  if c = '"' ∨ c = '\\' then ['\\', c]
  else if c = '\n' then "\\n"
  else if c = '\r' then "\\r"
  else if c = '\t' then "\\t"
  else if c.toNat = 8 then "\\b"
  else if c.toNat = 12 then "\\f"
  else if 0x20 ≤ c.toNat ∧ c.toNat < 0x7F then [c]
  else if c.toNat < 0x10000 then unitEscape c.toNat
  else
    let offset := c.toNat - 0x10000
    unitEscape (0xD800 + offset / 0x400) ++ unitEscape (0xDC00 + offset % 0x400)

def writeText (s : Text) : Text :=
  "\"" ++ s.flatMap escapePoint ++ "\""

mutual

def write : Json → Text
  | .null => "null"
  | .bool true => "true"
  | .bool false => "false"
  | .int n => Text.ofInt n
  | .real x => x.write configurationNames
  | .text s => writeText s
  | .array items => "[" ++ Text.separated ", " (writeItems items) ++ "]"
  | .object members => "\x7b" ++ Text.separated ", " (writeMembers members) ++ "\x7d"

def writeItems : List Json → List Text
  | [] => []
  | item :: rest => write item :: writeItems rest

def writeMembers : List (Text × Json) → List Text
  | [] => []
  | (key, value) :: rest => (writeText key ++ ": " ++ write value) :: writeMembers rest

end

mutual

/-- A value with the members of every object in the order of their keys. -/
def sortMembers : Json → Json
  | .array items => .array (sortItems items)
  | .object members =>
    .object ((sortValues members).mergeSort fun a b => decide (a.1 ≤ b.1))
  | value => value

def sortItems : List Json → List Json
  | [] => []
  | item :: rest => sortMembers item :: sortItems rest

def sortValues : List (Text × Json) → List (Text × Json)
  | [] => []
  | (key, value) :: rest => (key, sortMembers value) :: sortValues rest

end

def newLine (level : Nat) : Text :=
  '\n' :: List.replicate (2 * level) (.char ' ')

def enclosed (opening closing : Text) (level : Nat) (parts : List Text) : Text :=
  match parts with
  | [] => opening ++ closing
  | parts =>
    opening ++ newLine (level + 1) ++ Text.separated ("," ++ newLine (level + 1)) parts
      ++ newLine level ++ closing

mutual

def writeLinesAt (level : Nat) : Json → Text
  | .array items => enclosed "[" "]" level (writeLinesItems (level + 1) items)
  | .object members => enclosed "\x7b" "\x7d" level (writeLinesMembers (level + 1) members)
  | value => write value

def writeLinesItems (level : Nat) : List Json → List Text
  | [] => []
  | item :: rest => writeLinesAt level item :: writeLinesItems level rest

def writeLinesMembers (level : Nat) : List (Text × Json) → List Text
  | [] => []
  | (key, value) :: rest =>
    (writeText key ++ ": " ++ writeLinesAt level value) :: writeLinesMembers level rest

end

def writeLines (value : Json) : Text :=
  writeLinesAt 0 value

end EditorTabs.Json
