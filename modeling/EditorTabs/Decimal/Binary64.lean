/-!
# Binary floating-point numbers of 64 bits

A number is kept as the whole number `mantissa` times a power of two, so that everything about it
is arithmetic on naturals. A decimal reads as the nearest such number, of two equally near the one
with the even mantissa.
-/
namespace EditorTabs.Decimal

/-- A number of 64 bits. A finite one is `mantissa * 2 ^ exponent`; the mantissa is below `2 ^ 53`,
the exponent at least `-1074`, and the mantissa is below `2 ^ 52` only at that least exponent. -/
inductive Binary64 where
  | finite (negative : Bool) (mantissa : Nat) (exponent : Int)
  | infinite (negative : Bool)
  | nan
  deriving DecidableEq, Repr

def leastExponent : Int := -1074

def greatestExponent : Int := 971

/-- The quotient rounded to the nearest whole number, a half to the even neighbour. -/
def divideToEven (num den : Nat) : Nat :=
  let quotient := num / den
  let rest := num % den
  if 2 * rest < den then quotient
  else if den < 2 * rest then quotient + 1
  else quotient + quotient % 2

def scaled (num den : Nat) (exponent : Int) : Nat × Nat :=
  let scale := Nat.pow 2 exponent.natAbs
  if exponent < 0 then (num * scale, den) else (num, den * scale)

/-- The number nearest to a positive fraction: the exponent that gives the quotient 53 binary
digits, but no less than the least one, and the quotient rounded there. -/
def Binary64.ofFraction (negative : Bool) (num den : Nat) : Binary64 :=
  let guess : Int := max leastExponent ((num.log2 : Int) - den.log2 - 53)
  let whole := scaled num den guess
  let exponent := if Nat.pow 2 53 ≤ whole.1 / whole.2 then guess + 1 else guess
  let exact := scaled num den exponent
  let mantissa := divideToEven exact.1 exact.2
  let carried :=
    if mantissa = Nat.pow 2 53 then (Nat.pow 2 52, exponent + 1) else (mantissa, exponent)
  if greatestExponent < carried.2 then .infinite negative
  else .finite negative carried.1 carried.2

/-- The number nearest to `digits * 10 ^ exponent`. Far outside the range of finite numbers the
answer is zero or infinite without any arithmetic on the power. -/
def Binary64.ofDecimal (negative : Bool) (digits : Nat) (exponent : Int) : Binary64 :=
  let magnitude := (Nat.toDigits 10 digits).length + exponent
  if digits = 0 ∨ magnitude < -400 then .finite negative 0 leastExponent
  else if 400 < magnitude then .infinite negative
  else if exponent < 0 then ofFraction negative digits (Nat.pow 10 exponent.natAbs)
  else ofFraction negative (digits * Nat.pow 10 exponent.natAbs) 1

end EditorTabs.Decimal
