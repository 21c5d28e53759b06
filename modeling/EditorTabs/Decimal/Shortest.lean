import EditorTabs.Decimal.Binary64

/-!
# The shortest decimal of a number

Every number of 64 bits is the nearest one to all the reals of an interval around it. Its shortest
decimal is the decimal of fewest digits in that interval, the nearest to the number when there
are several, and of two equally near ones the even one.
-/
namespace EditorTabs.Decimal

/-- A decimal number, `digits * 10 ^ exponent`. -/
structure Numeral where
  digits : Nat
  exponent : Int
  deriving DecidableEq, Repr

def compareScaled (a : Nat) (i : Int) (b : Nat) (j : Int) : Ordering :=
  compare (a * Nat.pow 10 i.toNat * Nat.pow 2 (-j).toNat)
    (b * Nat.pow 2 j.toNat * Nat.pow 10 (-i).toNat)

/-- Whether a decimal lies in the interval that rounds to `mantissa * 2 ^ exponent`. The interval
reaches halfway to either neighbour, and holds its ends when the mantissa is even; below a power of
two the neighbour is at half the distance. -/
def readsBack (mantissa : Nat) (exponent : Int) (d : Numeral) : Bool :=
  let powerOfTwo := mantissa = Nat.pow 2 52 ∧ leastExponent < exponent
  let low := if powerOfTwo then 4 * mantissa - 1 else 4 * mantissa - 2
  let high := 4 * mantissa + 2
  let closed := mantissa % 2 = 0
  let fromLow := compareScaled d.digits d.exponent low (exponent - 2)
  let fromHigh := compareScaled d.digits d.exponent high (exponent - 2)
  (fromLow = .gt ∨ closed ∧ fromLow = .eq) ∧ (fromHigh = .lt ∨ closed ∧ fromHigh = .eq)

def gridFloor (mantissa : Nat) (exponent unit : Int) : Nat :=
  (mantissa * Nat.pow 2 exponent.toNat * Nat.pow 10 (-unit).toNat) /
    (Nat.pow 2 (-exponent).toNat * Nat.pow 10 unit.toNat)

/-- The place after the leading digit of `mantissa * 2 ^ exponent`: the least `k` with the number
below `10 ^ k`. -/
def magnitude (mantissa : Nat) (exponent : Int) : Int :=
  let num := mantissa * Nat.pow 2 exponent.toNat
  let den := Nat.pow 2 (-exponent).toNat
  let guess : Int := (Nat.toDigits 10 num).length - (Nat.toDigits 10 den).length
  if compareScaled 1 guess mantissa exponent = .gt then guess else guess + 1

/-- The decimal on the grid of `count` digits that rounds to the number, if there is one. -/
def onGrid? (mantissa : Nat) (exponent : Int) (count : Nat) : Option Numeral :=
  let unit := magnitude mantissa exponent - count
  let floor := gridFloor mantissa exponent unit
  let below : Numeral := ⟨floor, unit⟩
  let above : Numeral := ⟨floor + 1, unit⟩
  match readsBack mantissa exponent below, readsBack mantissa exponent above with
  | false, false => none
  | true, false => some below
  | false, true => some above
  | true, true =>
    match compareScaled (2 * floor + 1) unit (2 * mantissa) exponent with
    | .gt => some below
    | .lt => some above
    | .eq => some (if floor % 2 = 0 then below else above)

/-- The shortest decimal of a positive finite number: the first grid with a decimal that rounds to
it, from one digit to seventeen. Seventeen always suffice; the exact value stands behind them. -/
def shortest (mantissa : Nat) (exponent : Int) : Numeral :=
  match (List.range 17).findSome? fun count => onGrid? mantissa exponent (count + 1) with
  | some d => d
  | none =>
    if exponent < 0 then ⟨mantissa * Nat.pow 5 exponent.natAbs, exponent⟩
    else ⟨mantissa * Nat.pow 2 exponent.natAbs, 0⟩

end EditorTabs.Decimal
