import EditorTabs.Text.Basic

/-!
# Hexadecimal digits
-/
namespace EditorTabs.Text

/-- One lower-case hexadecimal digit; the argument is taken modulo sixteen. -/
def hexDigit (n : Nat) : CodePoint :=
  .ofNat (if n % 16 < 10 then 48 + n % 16 else 87 + n % 16)

/-- The last `width` lower-case hexadecimal digits of a number. -/
def hexDigits : (width n : Nat) → Text
  | 0, _ => []
  | width + 1, n => hexDigits width (n / 16) ++ [hexDigit n]

def hexValue? (c : CodePoint) : Option Nat :=
  if 48 ≤ c.toNat ∧ c.toNat ≤ 57 then some (c.toNat - 48)
  else if 97 ≤ c.toNat ∧ c.toNat ≤ 102 then some (c.toNat - 87)
  else if 65 ≤ c.toNat ∧ c.toNat ≤ 70 then some (c.toNat - 55)
  else none

end EditorTabs.Text
