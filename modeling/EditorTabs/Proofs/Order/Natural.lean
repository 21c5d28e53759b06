import EditorTabs.Order.Natural
import EditorTabs.Proofs.Order.StableSort

/-!
# Names in natural order

Keys are compared part by part. The comparison of parts is the same from both sides and transitive,
and so are that of keys and, for names that have keys, that of names.
-/
namespace EditorTabs

open Std

instance : TransOrd CodePoint :=
  inferInstanceAs (TransCmp (compareOn CodePoint.toNat))

namespace Order

instance : OrientedCmp Part.compare where
  eq_swap {a b} := by
    cases a with
    | number m =>
      cases b with
      | number n => exact OrientedOrd.eq_swap (α := Nat)
      | text t => rfl
    | text s =>
      cases b with
      | number n => rfl
      | text t => exact OrientedOrd.eq_swap (α := Text)

instance : TransCmp Part.compare where
  isLE_trans {a b c} hab hbc := by
    cases a with
    | number m =>
      cases c with
      | number n =>
        cases b with
        | number k => exact TransOrd.isLE_trans (α := Nat) hab hbc
        | text u => cases hbc
      | text t => rfl
    | text s =>
      cases b with
      | number k => cases hab
      | text u =>
        cases c with
        | number n => cases hbc
        | text t => exact TransOrd.isLE_trans (α := Text) hab hbc

instance : TransCmp compareKeys :=
  inferInstanceAs (TransCmp (List.compareLex Part.compare))

def HasKey (name : Text) : Prop :=
  ∃ key, naturalKey name = .ok key

instance (name : Text) : Decidable (HasKey name) :=
  match hkey : naturalKey name with
  | .ok key => .isTrue ⟨key, hkey⟩
  | .error _ => .isFalse fun ⟨_, hkey'⟩ => by cases hkey.symm.trans hkey'

def keyOf (name : Text) : List Part :=
  (naturalKey name).toOption.getD []

theorem naturalKey_eq_keyOf {name : Text} (h : HasKey name) :
    naturalKey name = .ok (keyOf name) := by
  obtain ⟨key, hkey⟩ := h
  rw [keyOf, hkey]
  rfl

theorem naturalCompare_of_naturalKey {a b : Text} {keyA keyB : List Part}
    (ha : naturalKey a = .ok keyA) (hb : naturalKey b = .ok keyB) :
    naturalCompare a b = .ok (compareKeys keyA keyB) := by
  simp only [naturalCompare, ha, hb]

variable {names : List Text}

theorem isByKey_naturalCompare (h : ∀ name ∈ names, HasKey name) :
    IsByKey naturalCompare compareKeys keyOf names :=
  fun a ha b hb =>
    naturalCompare_of_naturalKey (naturalKey_eq_keyOf (h a ha)) (naturalKey_eq_keyOf (h b hb))

theorem decides_naturalCompare (h : ∀ name ∈ names, HasKey name) :
    Decides naturalCompare names :=
  (isByKey_naturalCompare h).decides

theorem isTransitive_naturalCompare (h : ∀ name ∈ names, HasKey name) :
    IsTransitive naturalCompare names :=
  (isByKey_naturalCompare h).isTransitive

end Order

end EditorTabs
