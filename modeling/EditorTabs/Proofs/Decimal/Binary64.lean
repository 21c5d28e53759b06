import EditorTabs.Proofs.Decimal.Notation

/-!
# Numbers and their texts

Every number that is read has its only form, and a finite number in its only form is told by its
text.
-/
namespace EditorTabs.Decimal

/-- A number in its only form. -/
inductive Binary64.IsNormal : Binary64 → Prop
  | finite (negative : Bool) {mantissa : Nat} {exponent : Int}
      (h : Decimal.IsNormal mantissa exponent) : IsNormal (.finite negative mantissa exponent)
  | infinite (negative : Bool) : IsNormal (.infinite negative)
  | nan : IsNormal .nan

variable {num den k : Nat} {g : Int}

/-! ## Rounding -/

/-- The two parts of a scaled fraction, by the same factor. -/
theorem exists_scaled_eq (num den : Nat) (g : Int) : ∃ c : ℚ, 0 < c ∧
    ((scaled num den g).1 : ℚ) = num * c ∧ ((scaled num den g).2 : ℚ) = den * 2 ^ g * c := by
  simp only [scaled, Nat.pow_eq]
  split
  · next hneg =>
    obtain ⟨n, rfl⟩ : ∃ n : Nat, g = -n := ⟨g.natAbs, by omega⟩
    refine ⟨2 ^ n, by positivity, by simp, ?_⟩
    simp only [zpow_neg, zpow_natCast]
    field_simp
  · next hneg =>
    obtain ⟨n, rfl⟩ : ∃ n : Nat, g = n := ⟨g.natAbs, by omega⟩
    exact ⟨1, by norm_num, by simp, by simp⟩

theorem mul_le_scaled_iff : k * (scaled num den g).2 ≤ (scaled num den g).1 ↔
    (k * 2 ^ g * den : ℚ) ≤ num := by
  obtain ⟨c, hc, hnum, hden⟩ := exists_scaled_eq num den g
  have hshape : (k * (den * 2 ^ g * c) : ℚ) = k * 2 ^ g * den * c := by ring
  rw [← Nat.cast_le (α := ℚ), Nat.cast_mul, hnum, hden, hshape, mul_le_mul_iff_of_pos_right hc]

theorem scaled_lt_mul_iff : (scaled num den g).1 < k * (scaled num den g).2 ↔
    (num : ℚ) < k * 2 ^ g * den := by
  rw [← not_le, mul_le_scaled_iff, not_le]

theorem scaled_snd_pos (hden : 0 < den) : 0 < (scaled num den g).2 := by
  obtain ⟨c, hc, -, h⟩ := exists_scaled_eq num den g
  have hpos : (0 : ℚ) < (scaled num den g).2 := by
    rw [h]
    positivity
  exact_mod_cast hpos

theorem divideToEven_le (h : num < k * den) : divideToEven num den ≤ k := by
  have hquotient : num / den < k := Nat.div_lt_of_lt_mul (Nat.mul_comm k den ▸ h)
  simp only [divideToEven]
  split
  · omega
  · split <;> omega

theorem le_divideToEven (hden : 0 < den) (h : k * den ≤ num) : k ≤ divideToEven num den := by
  have hquotient : k ≤ num / den := (Nat.le_div_iff_mul_le hden).mpr h
  simp only [divideToEven]
  split
  · omega
  · split <;> omega

/-- The lengths of a numerator and a denominator give their quotient within a factor of four. -/
theorem bounds_of_log2 (hnum : 0 < num) (hden : 0 < den) :
    (2 ^ (num.log2 - den.log2 - 1 : Int) * den : ℚ) < num ∧
      (num : ℚ) < 2 ^ (num.log2 - den.log2 + 1 : Int) * den := by
  have hlow : (2 ^ (num.log2 : Int) : ℚ) ≤ num := by
    exact_mod_cast Nat.log2_self_le (Nat.pos_iff_ne_zero.mp hnum)
  have hhigh : (num : ℚ) < 2 ^ (num.log2 + 1 : Int) := by
    exact_mod_cast Nat.lt_log2_self
  have hlow' : (2 ^ (den.log2 : Int) : ℚ) ≤ den := by
    exact_mod_cast Nat.log2_self_le (Nat.pos_iff_ne_zero.mp hden)
  have hhigh' : (den : ℚ) < 2 ^ (den.log2 + 1 : Int) := by
    exact_mod_cast Nat.lt_log2_self
  constructor
  · calc (2 ^ (num.log2 - den.log2 - 1 : Int) * den : ℚ)
        < 2 ^ (num.log2 - den.log2 - 1 : Int) * 2 ^ (den.log2 + 1 : Int) := by gcongr
      _ = 2 ^ (num.log2 : Int) := by
        rw [← zpow_add₀ (by norm_num)]
        congr 1
        ring
      _ ≤ num := hlow
  · calc (num : ℚ) < 2 ^ (num.log2 + 1 : Int) := hhigh
      _ = 2 ^ (num.log2 - den.log2 + 1 : Int) * 2 ^ (den.log2 : Int) := by
        rw [← zpow_add₀ (by norm_num)]
        congr 1
        ring
      _ ≤ 2 ^ (num.log2 - den.log2 + 1 : Int) * den := by gcongr

/-- The exponent that is taken gives the quotient 53 binary digits, or it is the least one and
gives it fewer. -/
theorem bounds_of_exponent (hnum : 0 < num) (hden : 0 < den) {guess e : Int}
    (hguess : guess = max leastExponent (num.log2 - den.log2 - 53))
    (he : e = if 2 ^ 53 ≤ (scaled num den guess).1 / (scaled num den guess).2 then guess + 1
      else guess) :
    leastExponent ≤ e ∧ (num : ℚ) < (2 ^ 53 : Nat) * 2 ^ e * den ∧
      (leastExponent < e → ((2 ^ 52 : Nat) * 2 ^ e * den : ℚ) ≤ num) := by
  obtain ⟨hlow, hhigh⟩ := bounds_of_log2 hnum hden
  have hdenQ : (0 : ℚ) < den := by exact_mod_cast hden
  have hstep : (2 : ℚ) ^ (guess + 1) = 2 * 2 ^ guess := by
    rw [zpow_add₀ (by norm_num), zpow_one, mul_comm]
  split at he
  · next hfull =>
    rw [Nat.le_div_iff_mul_le (scaled_snd_pos hden), mul_le_scaled_iff] at hfull
    rw [he]
    refine ⟨by omega, ?_, fun _ => ?_⟩
    · have hpow : (2 : ℚ) ^ (num.log2 - den.log2 + 1 : Int) ≤ 2 ^ (54 + guess) :=
        zpow_le_zpow_right₀ (by norm_num) (by omega)
      calc (num : ℚ) < 2 ^ (num.log2 - den.log2 + 1 : Int) * den := hhigh
        _ ≤ 2 ^ (54 + guess) * den := by gcongr
        _ = (2 ^ 53 : Nat) * 2 ^ (guess + 1) * den := by
          rw [zpow_add₀ (by norm_num), hstep]
          push_cast
          ring
    · have hhalf : ((2 ^ 52 : Nat) * 2 ^ (guess + 1) * den : ℚ) =
          (2 ^ 53 : Nat) * 2 ^ guess * den := by
        rw [hstep]
        push_cast
        ring
      rw [hhalf]
      exact hfull
  · next hshort =>
    rw [Nat.le_div_iff_mul_le (scaled_snd_pos hden), mul_le_scaled_iff] at hshort
    rw [he]
    refine ⟨by omega, not_le.mp hshort, fun hlt => ?_⟩
    have hpow : (2 : ℚ) ^ (num.log2 - den.log2 - 1 : Int) = (2 ^ 52 : Nat) * 2 ^ guess := by
      have hexp : (num.log2 - den.log2 - 1 : Int) = 52 + guess := by omega
      rw [hexp, zpow_add₀ (by norm_num)]
      norm_num
    rw [← hpow]
    exact hlow.le

theorem isNormal_ofFraction (negative : Bool) (hnum : 0 < num) (hden : 0 < den) :
    (Binary64.ofFraction negative num den).IsNormal := by
  simp only [Binary64.ofFraction, Nat.pow_eq]
  generalize hguess : max leastExponent ((num.log2 : Int) - den.log2 - 53) = guess
  generalize he : (if 2 ^ 53 ≤ (scaled num den guess).1 / (scaled num den guess).2 then guess + 1
    else guess) = e
  obtain ⟨hleast, hhigh, hlow⟩ := bounds_of_exponent hnum hden hguess.symm he.symm
  have hle := divideToEven_le (scaled_lt_mul_iff.mpr hhigh)
  have hfull := fun hlt => le_divideToEven (scaled_snd_pos hden) (mul_le_scaled_iff.mpr (hlow hlt))
  generalize divideToEven (scaled num den e).1 (scaled num den e).2 = mantissa at hle hfull
  by_cases hcarry : mantissa = 2 ^ 53
  · simp only [if_pos hcarry]
    split
    · exact .infinite negative
    · exact .finite negative ⟨by omega, by omega, fun _ => le_rfl⟩
  · simp only [if_neg hcarry]
    split
    · exact .infinite negative
    · exact .finite negative ⟨by omega, hleast, hfull⟩

/-- Every decimal is read as a number in its only form. -/
theorem isNormal_ofDecimal (negative : Bool) (digits : Nat) (exponent : Int) :
    (Binary64.ofDecimal negative digits exponent).IsNormal := by
  have hpow (n : Nat) : 0 < Nat.pow 10 n := Nat.pow_pos (by omega)
  simp only [Binary64.ofDecimal]
  split
  · exact .finite negative ⟨by norm_num, le_rfl, fun h => absurd h (lt_irrefl _)⟩
  · next hzero =>
    have hdigits : 0 < digits := by omega
    split
    · exact .infinite negative
    · split
      · exact isNormal_ofFraction negative hdigits (hpow _)
      · exact isNormal_ofFraction negative (Nat.mul_pos hdigits (hpow _)) Nat.one_pos

/-! ## Writing -/

def unsignedText (mantissa : Nat) (exponent : Int) : Text :=
  if mantissa = 0 then "0.0" else writeFinite mantissa exponent

theorem write_finite (names : Names) (negative : Bool) (mantissa : Nat) (exponent : Int) :
    (Binary64.finite negative mantissa exponent).write names =
      Text.ofString (if negative then "-" else "") ++ unsignedText mantissa exponent := by
  cases negative <;> rfl

variable {m m' : Nat} {e e' : Int}

theorem spells_unsignedText (m : Nat) (e : Int) :
    Spells (unsignedText m e) (if m = 0 then 0 else (shortest m e).value) := by
  rw [unsignedText]
  split
  · have hfraction : Json.IsFraction ".0" := .inr ⟨"0", ⟨by decide, by decide⟩, rfl⟩
    have hspells := Spells.parts (.inl rfl) hfraction (.inl ⟨rfl, rfl⟩) (.inl (by decide))
    have hzero : Numeral.value ⟨0, -1⟩ = 0 := by simp [Numeral.value]
    rwa [← hzero]
  · next hne => exact spells_writeFinite (Nat.pos_iff_ne_zero.mpr hne) e

theorem IsNormal.exponent_of_zero (h : IsNormal 0 e) : e = leastExponent := by
  have hleast := h.least_le
  have hfull := h.full
  omega

theorem value_shortest_pos (hm : 0 < m) (e : Int) : 0 < (shortest m e).value := by
  have hdigits := digits_pos_of_readsBack hm (readsBack_shortest hm e)
  rw [Numeral.value]
  positivity

/-- Finite numbers without a sign are told by their texts. -/
theorem eq_of_unsignedText_eq (h : IsNormal m e) (h' : IsNormal m' e')
    (htext : unsignedText m e = unsignedText m' e') : m = m' ∧ e = e' := by
  have hspells := spells_unsignedText m e
  rw [htext] at hspells
  have hvalue := hspells.unique (spells_unsignedText m' e')
  by_cases hm : m = 0 <;> by_cases hm' : m' = 0
  · subst hm hm'
    exact ⟨rfl, h.exponent_of_zero.trans h'.exponent_of_zero.symm⟩
  · rw [if_pos hm, if_neg hm'] at hvalue
    exact absurd hvalue (value_shortest_pos (Nat.pos_iff_ne_zero.mpr hm') e').ne
  · rw [if_neg hm, if_pos hm'] at hvalue
    exact absurd hvalue (value_shortest_pos (Nat.pos_iff_ne_zero.mpr hm) e).ne'
  · rw [if_neg hm, if_neg hm'] at hvalue
    exact eq_of_value_shortest_eq h h' (Nat.pos_iff_ne_zero.mpr hm) (Nat.pos_iff_ne_zero.mpr hm')
      hvalue

end EditorTabs.Decimal
