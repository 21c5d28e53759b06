import EditorTabs.Decimal.Shortest
import Mathlib.Algebra.Order.Field.Power
import Mathlib.Algebra.Order.Ring.Rat
import Mathlib.Tactic.FieldSimp
import Mathlib.Tactic.Linarith
import Mathlib.Tactic.Positivity
import Mathlib.Tactic.Ring

/-!
# Which number a decimal stands for

The decimals that read back as a number lie in an interval around it, and the intervals of two
numbers have at most an end in common, which then belongs to neither or to one of them. So the
shortest decimal of a number, which lies in its interval, tells it from all others.
-/
namespace EditorTabs.Decimal

def Numeral.value (d : Numeral) : ℚ :=
  d.digits * 10 ^ d.exponent

/-- A mantissa and an exponent of a finite number in their only form. -/
structure IsNormal (mantissa : Nat) (exponent : Int) : Prop where
  lt : mantissa < 2 ^ 53
  least_le : leastExponent ≤ exponent
  full : leastExponent < exponent → 2 ^ 52 ≤ mantissa

variable {m m' : Nat} {e e' : Int} {d d' : Numeral}

/-! ## Comparing -/

theorem zpow_mul_pow_toNat_neg {x : ℚ} (hx : x ≠ 0) (i : Int) :
    x ^ i * x ^ (-i).toNat = x ^ i.toNat := by
  rw [← zpow_natCast, ← zpow_natCast, ← zpow_add₀ hx]
  congr 1
  omega

/-- Both sides of a comparison, multiplied with what makes them whole. -/
theorem exists_common_factor (a : Nat) (i : Int) (b : Nat) (j : Int) :
    ∃ c : ℚ, 0 < c ∧
      ((a * Nat.pow 10 i.toNat * Nat.pow 2 (-j).toNat : Nat) : ℚ) = a * 10 ^ i * c ∧
      ((b * Nat.pow 2 j.toNat * Nat.pow 10 (-i).toNat : Nat) : ℚ) = b * 2 ^ j * c := by
  refine ⟨10 ^ (-i).toNat * 2 ^ (-j).toNat, by positivity, ?_, ?_⟩
  · have h := zpow_mul_pow_toNat_neg (x := 10) (by norm_num) i
    simp only [Nat.pow_eq]
    push_cast
    rw [← h]
    ring
  · have h := zpow_mul_pow_toNat_neg (x := 2) (by norm_num) j
    simp only [Nat.pow_eq]
    push_cast
    rw [← h]
    ring

theorem compareScaled_eq_gt_iff {a b : Nat} {i j : Int} :
    compareScaled a i b j = .gt ↔ (b * 2 ^ j : ℚ) < a * 10 ^ i := by
  obtain ⟨c, hc, ha, hb⟩ := exists_common_factor a i b j
  rw [compareScaled, Nat.compare_eq_gt, ← Nat.cast_lt (α := ℚ), ha, hb,
    mul_lt_mul_iff_of_pos_right hc]

theorem compareScaled_eq_lt_iff {a b : Nat} {i j : Int} :
    compareScaled a i b j = .lt ↔ (a * 10 ^ i : ℚ) < b * 2 ^ j := by
  obtain ⟨c, hc, ha, hb⟩ := exists_common_factor a i b j
  rw [compareScaled, Nat.compare_eq_lt, ← Nat.cast_lt (α := ℚ), ha, hb,
    mul_lt_mul_iff_of_pos_right hc]

theorem compareScaled_eq_eq_iff {a b : Nat} {i j : Int} :
    compareScaled a i b j = .eq ↔ (a * 10 ^ i : ℚ) = b * 2 ^ j := by
  obtain ⟨c, hc, ha, hb⟩ := exists_common_factor a i b j
  rw [compareScaled, Nat.compare_eq_eq, ← Nat.cast_inj (R := ℚ), ha, hb,
    mul_left_inj' hc.ne']

/-! ## Intervals -/

/-- The lower end of the interval of a number, in quarters of its unit. -/
def lowQuarters (m : Nat) (e : Int) : Nat :=
  if m = 2 ^ 52 ∧ leastExponent < e then 4 * m - 1 else 4 * m - 2

/-- The decimals that read back as a number are those of its interval, and its ends belong to it if
the mantissa is even. -/
theorem readsBack_iff : readsBack m e d = true ↔
    (lowQuarters m e * 2 ^ (e - 2) < d.value ∨
      m % 2 = 0 ∧ d.value = lowQuarters m e * 2 ^ (e - 2)) ∧
    (d.value < (4 * m + 2 : Nat) * 2 ^ (e - 2) ∨
      m % 2 = 0 ∧ d.value = (4 * m + 2 : Nat) * 2 ^ (e - 2)) := by
  simp only [readsBack, compareScaled_eq_gt_iff, compareScaled_eq_lt_iff, compareScaled_eq_eq_iff,
    decide_eq_true_eq, lowQuarters, Numeral.value, Nat.pow_eq]

theorem zpow_two_eq (h : e ≤ e') : (2 : ℚ) ^ (e' - 2) = 2 ^ (e' - e).toNat * 2 ^ (e - 2) := by
  rw [← zpow_natCast, ← zpow_add₀ (by norm_num)]
  congr 1
  omega

/-- A number of a greater exponent is greater, and its interval starts where that of the smaller
number is over. -/
theorem high_le_low (h : IsNormal m e) (h' : IsNormal m' e') (hpos : 0 < m')
    (hlt : e < e' ∨ e = e' ∧ m < m') :
    ((4 * m + 2 : Nat) * 2 ^ (e - 2) : ℚ) ≤ lowQuarters m' e' * 2 ^ (e' - 2) ∧
      ((m % 2 = 0 ∧ m' % 2 = 0) →
        ((4 * m + 2 : Nat) * 2 ^ (e - 2) : ℚ) < lowQuarters m' e' * 2 ^ (e' - 2)) := by
  have hle : e ≤ e' := by omega
  have hfactor : (0 : ℚ) < 2 ^ (e - 2) := by positivity
  rw [zpow_two_eq hle, ← mul_assoc]
  obtain ⟨hm, hleast, -⟩ := h
  have hquarters : 4 * m + 2 ≤ lowQuarters m' e' * 2 ^ (e' - e).toNat ∧
      ((m % 2 = 0 ∧ m' % 2 = 0) → 4 * m + 2 < lowQuarters m' e' * 2 ^ (e' - e).toNat) := by
    rw [lowQuarters]
    rcases hlt with hlt | ⟨rfl, hlt⟩
    · have hfull := h'.full (by omega)
      obtain ⟨k, hk⟩ : ∃ k, (e' - e).toNat = k + 1 := ⟨(e' - e).toNat - 1, by omega⟩
      have htwo : 2 ≤ 2 ^ (k + 1) := by
        rw [pow_succ]
        have := Nat.one_le_two_pow (n := k)
        omega
      rw [hk]
      split
      · next hpower =>
        have := Nat.mul_le_mul_left (4 * m' - 1) htwo
        omega
      · next hpower =>
        have hne : m' ≠ 2 ^ 52 := fun heq => hpower ⟨heq, by omega⟩
        have := Nat.mul_le_mul_left (4 * m' - 2) htwo
        omega
    · rw [sub_self, Int.toNat_zero, pow_zero, mul_one]
      split <;> omega
  constructor
  · exact mul_le_mul_of_nonneg_right (by exact_mod_cast hquarters.1) hfactor.le
  · intro heven
    exact mul_lt_mul_of_pos_right (by exact_mod_cast hquarters.2 heven) hfactor

/-- No decimal reads back as two numbers. -/
theorem eq_of_readsBack (h : IsNormal m e) (h' : IsNormal m' e') (hm : 0 < m) (hm' : 0 < m')
    (hd : readsBack m e d = true) (hd' : readsBack m' e' d' = true) (hvalue : d.value = d'.value) :
    m = m' ∧ e = e' := by
  rw [readsBack_iff] at hd hd'
  rw [← hvalue] at hd'
  obtain ⟨hlow, hhigh⟩ := hd
  obtain ⟨hlow', hhigh'⟩ := hd'
  by_contra hne
  have hlt : (e < e' ∨ e = e' ∧ m < m') ∨ (e' < e ∨ e' = e ∧ m' < m) := by omega
  rcases hlt with hlt | hlt
  · obtain ⟨hle, hstrict⟩ := high_le_low h h' hm' hlt
    rcases hhigh with hhigh | ⟨heven, hhigh⟩ <;> rcases hlow' with hlow' | ⟨heven', hlow'⟩
    · linarith
    · linarith
    · linarith
    · linarith [hstrict ⟨heven, heven'⟩]
  · obtain ⟨hle, hstrict⟩ := high_le_low h' h hm hlt
    rcases hhigh' with hhigh | ⟨heven, hhigh⟩ <;> rcases hlow with hlow | ⟨heven', hlow⟩
    · linarith
    · linarith
    · linarith
    · linarith [hstrict ⟨heven, heven'⟩]

/-! ## The shortest decimal -/

/-- The interval of a number reaches to both sides of it. -/
theorem readsBack_of_value_eq (hm : 0 < m) (h : d.value = m * 2 ^ e) : readsBack m e d = true := by
  have hfactor : (0 : ℚ) < 2 ^ (e - 2) := by positivity
  have hquarters : d.value = (4 * m : Nat) * 2 ^ (e - 2) := by
    have hfour : (2 : ℚ) ^ e = 2 ^ (2 : Int) * 2 ^ (e - 2) := by
      rw [← zpow_add₀ (by norm_num)]
      congr 1
      omega
    rw [h, hfour]
    push_cast
    ring
  have hlow : lowQuarters m e < 4 * m := by
    rw [lowQuarters]
    split <;> omega
  rw [readsBack_iff, hquarters]
  constructor
  · exact .inl (mul_lt_mul_of_pos_right (by exact_mod_cast hlow) hfactor)
  · refine .inl (mul_lt_mul_of_pos_right ?_ hfactor)
    exact_mod_cast Nat.lt_add_of_pos_right Nat.two_pos

theorem readsBack_of_onGrid? {count : Nat} (h : onGrid? m e count = some d) :
    readsBack m e d = true := by
  unfold onGrid? at h
  simp only at h
  split at h
  · cases h
  · next hbelow _ =>
    cases h
    exact hbelow
  · next _ habove =>
    cases h
    exact habove
  · next hbelow habove =>
    split at h
    · cases h
      exact hbelow
    · cases h
      exact habove
    · cases h
      split
      · exact hbelow
      · exact habove

/-- The decimal that stands behind the grids is the number itself. -/
theorem value_exact (m : Nat) (e : Int) :
    Numeral.value (if e < 0 then ⟨m * Nat.pow 5 e.natAbs, e⟩ else ⟨m * Nat.pow 2 e.natAbs, 0⟩) =
      m * 2 ^ e := by
  split
  · next hneg =>
    obtain ⟨n, rfl⟩ : ∃ n : Nat, e = -n := ⟨e.natAbs, by omega⟩
    have hten : (10 : ℚ) ^ n = 2 ^ n * 5 ^ n := by
      rw [← mul_pow]
      norm_num
    simp only [Numeral.value, Nat.pow_eq, Int.natAbs_neg, Int.natAbs_natCast, zpow_neg,
      zpow_natCast, hten]
    push_cast
    field_simp
  · next hneg =>
    obtain ⟨n, rfl⟩ : ∃ n : Nat, e = n := ⟨e.natAbs, by omega⟩
    simp only [Numeral.value, Nat.pow_eq, Int.natAbs_natCast, zpow_natCast, zpow_zero, mul_one]
    push_cast
    rfl

/-- The shortest decimal of a number reads back as the number. -/
theorem readsBack_shortest (hm : 0 < m) (e : Int) : readsBack m e (shortest m e) = true := by
  unfold shortest
  cases hfound : (List.range 17).findSome? fun count => onGrid? m e (count + 1) with
  | some d =>
    obtain ⟨count, -, hgrid⟩ := List.exists_of_findSome?_eq_some hfound
    exact readsBack_of_onGrid? hgrid
  | none => exact readsBack_of_value_eq hm (value_exact m e)

/-- A decimal that reads back as a number is positive. -/
theorem digits_pos_of_readsBack (hm : 0 < m) (h : readsBack m e d = true) : 0 < d.digits := by
  have hlow : 0 < lowQuarters m e := by
    rw [lowQuarters]
    split <;> omega
  have hpos : (0 : ℚ) < lowQuarters m e * 2 ^ (e - 2) := by positivity
  rw [readsBack_iff] at h
  rw [Nat.pos_iff_ne_zero]
  intro hzero
  have hvalue : d.value = 0 := by simp [Numeral.value, hzero]
  rw [hvalue] at h
  rcases h.1 with hlt | ⟨-, heq⟩ <;> linarith

/-- Two numbers with a shortest decimal of the same value are the same. -/
theorem eq_of_value_shortest_eq (h : IsNormal m e) (h' : IsNormal m' e') (hm : 0 < m)
    (hm' : 0 < m') (hvalue : (shortest m e).value = (shortest m' e').value) : m = m' ∧ e = e' :=
  eq_of_readsBack h h' hm hm' (readsBack_shortest hm e) (readsBack_shortest hm' e') hvalue

end EditorTabs.Decimal
