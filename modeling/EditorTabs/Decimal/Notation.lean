import EditorTabs.Decimal.Shortest
import EditorTabs.Text.Basic

/-!
# Written numbers

Numbers are written with their shortest digits, positionally from `10 ^ -4` up to `10 ^ 16` and
with an exponent of at least two digits and a sign outside of that. A whole number keeps `.0`.
-/
namespace EditorTabs.Decimal

structure Names where
  infinite : Text
  nan : Text

def configurationNames : Names := ⟨"Infinity", "NaN"⟩

def plainNames : Names := ⟨"inf", "nan"⟩

abbrev zero : CodePoint := '0'

/-- The digits of a number without trailing zeros, and at least one. -/
def significantDigits (n : Nat) : Text :=
  match ((Text.ofNat n).reverse.dropWhile fun c => c = zero).reverse with
  | [] => [zero]
  | ds => ds

def exponentText (e : Int) : Text :=
  let ds := Text.ofNat e.natAbs
  (if e < 0 then "-" else "+") ++ if ds.length < 2 then zero :: ds else ds

/-- Digits with the point after the first `place` of them, which may lie outside of the digits. -/
def positional (ds : Text) (place : Int) : Text :=
  if place ≤ 0 then "0." ++ List.replicate place.natAbs zero ++ ds
  else if (ds.length : Int) ≤ place then
    ds ++ List.replicate (place.natAbs - ds.length) zero ++ ".0"
  else ds.take place.natAbs ++ "." ++ ds.drop place.natAbs

def scientific (ds : Text) (place : Int) : Text :=
  let head := ds.take 1
  let tail := ds.drop 1
  (if tail.isEmpty then head else head ++ "." ++ tail) ++ "e" ++ exponentText (place - 1)

def writeFinite (mantissa : Nat) (exponent : Int) : Text :=
  let d := shortest mantissa exponent
  let place := (Text.ofNat d.digits).length + d.exponent
  let ds := significantDigits d.digits
  if -4 < place ∧ place ≤ 16 then positional ds place else scientific ds place

def Binary64.write (names : Names) : Binary64 → Text
  | .nan => names.nan
  | .infinite negative => (if negative then "-" else "") ++ names.infinite
  | .finite negative mantissa exponent =>
    let unsigned : Text := if mantissa = 0 then "0.0" else writeFinite mantissa exponent
    (if negative then "-" else "") ++ unsigned

end EditorTabs.Decimal
