import EditorTabs.Fault
import EditorTabs.Text.CaseFold
import EditorTabs.Text.Digit

/-!
# Natural order

Names are compared without regard to case, and the runs of digits in them as numbers, whatever
their script and their leading zeros. A number comes before a text at the same place. A run of
digits that are not decimal has no number, and a name that holds one by itself has no key.
-/
namespace EditorTabs.Order

inductive Part where
  | number (value : Nat)
  | text (folded : Text)
  deriving DecidableEq, Repr

/-- The longest runs of decimal digits and of other characters, each with whether it is of decimal
digits. -/
def runs : Text → List (Bool × Text)
  | [] => []
  | c :: rest =>
    match runs rest with
    | [] => [(Text.isDecimal c, [c])]
    | (decimal, run) :: others =>
      if decimal = Text.isDecimal c then (decimal, c :: run) :: others
      else (Text.isDecimal c, [c]) :: (decimal, run) :: others

def decimalNumber (ds : Text) : Nat :=
  ds.foldl (fun n d => n * 10 + (Text.decimalValue? d).getD 0) 0

def part (decimal : Bool) (run : Text) : Except Fault Part :=
  if decimal then
    if Json.digitLimit < run.length then .error (.tooManyDigits run.length)
    else .ok (.number (decimalNumber run))
  else if run.all Text.isOtherDigit then .error (.notDecimal run)
  else .ok (.text (Text.foldCase run))

def parts : List (Bool × Text) → Except Fault (List Part)
  | [] => .ok []
  | (decimal, run) :: rest =>
    match part decimal run with
    | .error fault => .error fault
    | .ok first =>
      match parts rest with
      | .error fault => .error fault
      | .ok others => .ok (first :: others)

def naturalKey (name : Text) : Except Fault (List Part) :=
  parts (runs name)

def Part.compare : Part → Part → Ordering
  | .number a, .number b => Ord.compare a b
  | .number _, .text _ => .lt
  | .text _, .number _ => .gt
  | .text a, .text b => List.compareLex Ord.compare a b

/-- The comparison of two keys: the first parts that differ decide, and a key comes after its own
beginning. -/
def compareKeys : List Part → List Part → Ordering :=
  List.compareLex Part.compare

def naturalCompare (left right : Text) : Except Fault Ordering :=
  match naturalKey left with
  | .error fault => .error fault
  | .ok a =>
    match naturalKey right with
    | .error fault => .error fault
    | .ok b => .ok (compareKeys a b)

end EditorTabs.Order
