/-!
# Code points

Texts are sequences of code points. These are the characters, and the halves of surrogate pairs: an
escape in a JSON text can name such a half by itself, and what it leaves in the text is no
character.
-/
namespace EditorTabs

/-- A code point: a character, or half of a surrogate pair by itself. -/
inductive CodePoint where
  | char (c : Char)
  | half (index : Fin 0x800)
  deriving DecidableEq, Repr

namespace CodePoint

instance : Coe Char CodePoint := ⟨.char⟩

def toNat : CodePoint → Nat
  | .char c => c.toNat
  | .half index => 0xD800 + index

/-- The code point with a number. A number that is too large has none and gives that of zero. -/
def ofNat (n : Nat) : CodePoint :=
  if h : 0xD800 ≤ n ∧ n < 0xE000 then .half ⟨n - 0xD800, by omega⟩ else .char (Char.ofNat n)

/-- The character of a code point; the replacement character stands for a half. -/
def toChar : CodePoint → Char
  | .char c => c
  | .half _ => Char.ofNat 0xFFFD

instance : LT CodePoint := ⟨fun a b => a.toNat < b.toNat⟩

instance : DecidableLT CodePoint :=
  fun a b => inferInstanceAs (Decidable (a.toNat < b.toNat))

instance : Ord CodePoint := ⟨fun a b => compare a.toNat b.toNat⟩

/-- No character has the number of a half. -/
theorem not_half_toNat (c : Char) : ¬ (0xD800 ≤ c.toNat ∧ c.toNat < 0xE000) := by
  have := c.valid
  simp only [UInt32.isValidChar, Nat.isValidChar] at this
  simp only [Char.toNat]
  omega

@[simp] theorem ofNat_toNat (a : CodePoint) : ofNat a.toNat = a := by
  cases a with
  | char c => rw [ofNat, toNat, dif_neg (not_half_toNat c), Char.ofNat_toNat]
  | half index =>
    have := index.isLt
    rw [ofNat, toNat, dif_pos (by omega)]
    exact congrArg half (Fin.ext (Nat.add_sub_cancel_left ..))

theorem toNat_inj {a b : CodePoint} : a.toNat = b.toNat ↔ a = b :=
  ⟨fun h => by rw [← ofNat_toNat a, h, ofNat_toNat], congrArg toNat⟩

end CodePoint

end EditorTabs
