import EditorTabs.Text.Lines
import EditorTabs.Text.Utf8
import Mathlib.Algebra.Ring.Nat

/-!
# Decoded texts

What is decoded from bytes holds characters only: the bounds of the second byte of a sequence keep
the halves of surrogate pairs out.
-/
namespace EditorTabs

/-- A code point that is a character and no half of a surrogate pair. -/
def CodePoint.IsChar : CodePoint → Prop
  | .char _ => True
  | .half _ => False

instance : DecidablePred CodePoint.IsChar
  | .char _ => isTrue trivial
  | .half _ => isFalse id

theorem CodePoint.IsChar.not_half {c : CodePoint} (h : c.IsChar) :
    ¬ (0xD800 ≤ c.toNat ∧ c.toNat < 0xE000) := by
  cases c with
  | char c => exact CodePoint.not_half_toNat c
  | half index => exact h.elim

namespace Text

/-- No half of a surrogate pair can come of a character that is not complete yet: all the values
that it can take are below these, or all are above. -/
structure Utf8.Pending.IsSafe (p : Utf8.Pending) : Prop where
  low : 0x80 ≤ p.low
  high : p.high ≤ 0xBF
  away : (p.value * 64 + p.high % 64 + 1) * 64 ^ p.more ≤ 0xD800 ∨
    0xE000 ≤ (p.value * 64 + p.low % 64) * 64 ^ p.more

/-- What a byte starts or completes is a character or can become one. -/
def Utf8.Opening.IsSafe : Utf8.Opening → Prop
  | .char c => c.IsChar
  | .pending p => p.IsSafe
  | .invalid => True

namespace Utf8

theorem isChar_ofNat {n : Nat} (h : n < 0xD800 ∨ 0xE000 ≤ n) : (CodePoint.ofNat n).IsChar := by
  rw [CodePoint.ofNat, dif_neg (by omega)]
  trivial

theorem isSafe_opening (pos : Nat) (byte : UInt8) : (opening pos byte).IsSafe := by
  have hpending (value low high more : Nat) (hlow : 0x80 ≤ low) (hhigh : high ≤ 0xBF)
      (haway : (value * 64 + high % 64 + 1) * 64 ^ more ≤ 0xD800 ∨
        0xE000 ≤ (value * 64 + low % 64) * 64 ^ more) :
      (Opening.pending ⟨pos, [byte], value, low, high, more⟩).IsSafe := ⟨hlow, hhigh, haway⟩
  simp only [opening]
  split
  · exact isChar_ofNat (.inl (by omega))
  split
  · trivial
  split
  · exact hpending _ _ _ _ (by omega) (by omega) (by omega)
  split
  · exact hpending _ _ _ _ (by omega) (by omega) (by omega)
  split
  · exact hpending _ _ _ _ (by omega) (by omega) (by omega)
  split
  · exact hpending _ _ _ _ (by omega) (by omega) (by omega)
  split
  · exact hpending _ _ _ _ (by omega) (by omega) (by omega)
  split
  · exact hpending _ _ _ _ (by omega) (by omega) (by omega)
  split
  · exact hpending _ _ _ _ (by omega) (by omega) (by omega)
  · trivial

theorem isSafe_of_take? {p : Pending} {byte : UInt8} {next : Opening} (hp : p.IsSafe)
    (h : p.take? byte = some next) : next.IsSafe := by
  obtain ⟨hlow, hhigh, haway⟩ := hp
  rw [Pending.take?] at h
  split at h
  · next hbounds =>
    have hrest : p.low % 64 ≤ byte.toNat % 64 ∧ byte.toNat % 64 ≤ p.high % 64 := by omega
    simp only at h
    split at h
    · next hmore =>
      cases h
      rw [hmore, Nat.pow_zero] at haway
      exact isChar_ofNat (by omega)
    · next more hmore =>
      cases h
      refine ⟨Nat.le_refl _, Nat.le_refl _, ?_⟩
      rw [hmore, Nat.pow_succ', ← Nat.mul_assoc, ← Nat.mul_assoc] at haway
      rcases haway with hbelow | habove
      · left
        simp only
        calc ((p.value * 64 + byte.toNat % 64) * 64 + 0xBF % 64 + 1) * 64 ^ more
            ≤ (p.value * 64 + p.high % 64 + 1) * 64 * 64 ^ more :=
              Nat.mul_le_mul_right _ (by omega)
          _ ≤ 0xD800 := hbelow
      · right
        simp only
        calc 0xE000 ≤ (p.value * 64 + p.low % 64) * 64 * 64 ^ more := habove
          _ ≤ ((p.value * 64 + byte.toNat % 64) * 64 + 0x80 % 64) * 64 ^ more :=
            Nat.mul_le_mul_right _ (by omega)
  · cases h

/-- Decoding gives characters. -/
theorem isChar_of_decodeFrom {pos : Nat} {pending : Option Pending} {bytes : List UInt8}
    {s : Text} (hpending : ∀ p ∈ pending, p.IsSafe) (h : decodeFrom pos pending bytes = .ok s) :
    ∀ c ∈ s, c.IsChar := by
  have hcons {c : CodePoint} {r : Except Fault Text} {s : Text} (hc : c.IsChar)
      (hr : ∀ tail, r = .ok tail → ∀ c ∈ tail, c.IsChar) (h : r.map (c :: ·) = .ok s) :
      ∀ c ∈ s, c.IsChar := by
    cases r with
    | error fault => cases h
    | ok tail =>
      cases h
      exact List.forall_mem_cons.mpr ⟨hc, hr tail rfl⟩
  fun_induction decodeFrom pos pending bytes generalizing s with
  | case1 => cases h; simp
  | case2 => cases h
  | case3 pos byte rest c hopening ih =>
    have hsafe := isSafe_opening pos byte
    rw [hopening] at hsafe
    exact hcons hsafe (fun tail htail => ih (by simp) htail) h
  | case4 pos byte rest p hopening ih =>
    have hsafe := isSafe_opening pos byte
    rw [hopening] at hsafe
    exact ih (fun q hq => by cases hq; exact hsafe) h
  | case5 => cases h
  | case6 pos p byte rest c htake ih =>
    have hsafe := isSafe_of_take? (hpending p rfl) htake
    exact hcons hsafe (fun tail htail => ih (by simp) htail) h
  | case7 pos p byte rest q htake ih =>
    have hsafe := isSafe_of_take? (hpending p rfl) htake
    exact ih (fun q hq => by cases hq; exact hsafe) h
  | case8 => cases h
  | case9 => cases h

theorem isChar_of_decode {bytes : List UInt8} {s : Text} (h : decode bytes = .ok s) :
    ∀ c ∈ s, c.IsChar :=
  isChar_of_decodeFrom (by simp) h

end Utf8

theorem isChar_unifyLineEnds {s : Text} (h : ∀ c ∈ s, c.IsChar) :
    ∀ c ∈ unifyLineEnds s, c.IsChar := by
  fun_induction unifyLineEnds s with
  | case1 => exact h
  | case2 rest ih =>
    exact List.forall_mem_cons.mpr ⟨trivial, ih fun c hc => h c (by simp [hc])⟩
  | case3 rest _ ih =>
    exact List.forall_mem_cons.mpr ⟨trivial, ih fun c hc => h c (by simp [hc])⟩
  | case4 c rest _ _ ih =>
    obtain ⟨hc, hrest⟩ := List.forall_mem_cons.mp h
    exact List.forall_mem_cons.mpr ⟨hc, ih hrest⟩

end Text

end EditorTabs
