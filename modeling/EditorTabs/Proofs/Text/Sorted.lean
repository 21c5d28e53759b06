import EditorTabs.Text.Sorted
import Mathlib.Data.List.Nodup

/-!
# Order and sets of texts

Texts are totally ordered by their code points. `distinct` keeps the members of a list, each once
and in the order of their first copies. A sorted set has one form, so that two lists with the same
members have the same sorted set.
-/
namespace EditorTabs.Text

instance : Std.Asymm (α := CodePoint) (· < ·) := ⟨fun _ _ => Nat.lt_asymm⟩

instance : Std.Trichotomous (α := CodePoint) (· < ·) :=
  ⟨fun _ _ hab hba => CodePoint.toNat_inj.mp (Nat.le_antisymm (Nat.le_of_not_lt hba)
    (Nat.le_of_not_lt hab))⟩

instance : Trans (α := CodePoint) (¬ · < ·) (¬ · < ·) (¬ · < ·) :=
  ⟨fun hab hbc => Nat.not_lt.mpr (Nat.le_trans (Nat.le_of_not_lt hbc) (Nat.le_of_not_lt hab))⟩

theorem le_trans {a b c : Text} (hab : a ≤ b) (hbc : b ≤ c) : a ≤ c :=
  letI := LE.ofLT CodePoint
  haveI : Std.IsLinearOrder CodePoint := Std.IsLinearOrder.of_lt
  List.le_trans hab hbc

theorem le_total (a b : Text) : a ≤ b ∨ b ≤ a :=
  List.le_total a b

theorem le_antisymm {a b : Text} (hab : a ≤ b) (hba : b ≤ a) : a = b :=
  letI := LE.ofLT CodePoint
  haveI : Std.IsLinearOrder CodePoint := Std.IsLinearOrder.of_lt
  List.le_antisymm hab hba

section Ranked

variable {k m n : Nat} {a b c : Text}

/-- Texts that are ordered by a number first. -/
theorem ranked_trans (hab : k < m ∨ k = m ∧ a ≤ b) (hbc : m < n ∨ m = n ∧ b ≤ c) :
    k < n ∨ k = n ∧ a ≤ c := by
  rcases hab with hab | ⟨rfl, hab⟩ <;> rcases hbc with hbc | ⟨rfl, hbc⟩
  · exact .inl (Nat.lt_trans hab hbc)
  · exact .inl hab
  · exact .inl hbc
  · exact .inr ⟨rfl, le_trans hab hbc⟩

theorem ranked_total (m n : Nat) (a b : Text) :
    (m < n ∨ m = n ∧ a ≤ b) ∨ n < m ∨ n = m ∧ b ≤ a := by
  rcases Nat.lt_trichotomy m n with hlt | rfl | hlt
  · exact .inl (.inl hlt)
  · exact (le_total a b).imp (fun h => .inr ⟨rfl, h⟩) fun h => .inr ⟨rfl, h⟩
  · exact .inr (.inl hlt)

end Ranked

section Distinct

variable {α : Type} [DecidableEq α]

@[simp] theorem mem_distinct {a : α} {as : List α} : a ∈ distinct as ↔ a ∈ as := by
  induction as with
  | nil => simp [distinct]
  | cons b rest ih =>
    by_cases h : a = b
    · simp [distinct, h]
    · simp [distinct, ih, h]

theorem nodup_distinct (as : List α) : (distinct as).Nodup := by
  induction as with
  | nil => exact List.nodup_nil
  | cons a rest ih => exact List.nodup_cons.mpr ⟨by simp, ih.filter _⟩

theorem distinct_sublist (as : List α) : (distinct as).Sublist as := by
  induction as with
  | nil => exact .slnil
  | cons a rest ih => exact (List.filter_sublist.trans ih).cons_cons a

theorem distinct_append_singleton (as : List α) (a : α) :
    distinct (as ++ [a]) = if a ∈ as then distinct as else distinct as ++ [a] := by
  induction as with
  | nil => simp [distinct]
  | cons b rest ih =>
    rw [List.cons_append, distinct, distinct, ih]
    by_cases hb : a = b
    · subst hb
      split <;> simp
    · by_cases hr : a ∈ rest <;> simp [hr, hb]

/-- The first hit of a search is no later copy. -/
theorem find?_distinct (p : α → Bool) (as : List α) : (distinct as).find? p = as.find? p := by
  induction as with
  | nil => rfl
  | cons a rest ih =>
    rw [distinct, List.find?_cons, List.find?_cons, List.find?_filter, ← ih]
    cases ha : p a with
    | true => rfl
    | false =>
      apply congrFun (congrArg List.find? _)
      funext b
      by_cases hb : b = a <;> simp [hb, ha]

end Distinct

@[simp] theorem mem_sortedSet {text : Text} {texts : List Text} :
    text ∈ sortedSet texts ↔ text ∈ texts := by
  simp [sortedSet]

theorem nodup_sortedSet (texts : List Text) : (sortedSet texts).Nodup :=
  (List.mergeSort_perm _ _).nodup_iff.mpr (nodup_distinct texts)

theorem pairwise_sortedSet (texts : List Text) : (sortedSet texts).Pairwise (· ≤ ·) := by
  have trans : ∀ a b c : Text, decide (a ≤ b) = true → decide (b ≤ c) = true →
      decide (a ≤ c) = true := by
    simpa using fun a b c : Text => le_trans
  have total : ∀ a b : Text, (decide (a ≤ b) || decide (b ≤ a)) = true := by
    simpa using le_total
  simpa only [sortedSet, decide_eq_true_eq] using
    List.pairwise_mergeSort trans total (distinct texts)

/-- A sorted set depends on the members of the list alone. -/
theorem sortedSet_congr {as bs : List Text} (h : ∀ text, text ∈ as ↔ text ∈ bs) :
    sortedSet as = sortedSet bs := by
  have hp : (sortedSet as).Perm (sortedSet bs) :=
    (List.perm_ext_iff_of_nodup (nodup_sortedSet as) (nodup_sortedSet bs)).mpr (by simpa using h)
  exact hp.eq_of_pairwise (fun _ _ _ _ => le_antisymm) (pairwise_sortedSet as)
    (pairwise_sortedSet bs)

end EditorTabs.Text
