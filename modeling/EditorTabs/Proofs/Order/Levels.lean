import EditorTabs.Proofs.Order.Natural
import EditorTabs.Proofs.Order.Neighbours

/-!
# Order by levels and names

Paths are put on levels, and those on one level come in the natural order of a name that each has.
Sorting tabs in this way is the stable sort by level and key of the name, with the tabs without a
path last. It has a result exactly if no two paths share a level while one of their names has no
key.
-/
namespace EditorTabs.Order

open Std

/-- How paths are put on levels, and under which names they are compared there. -/
structure Placing where
  level : Text → Nat
  name : Text → Text

def Placing.compare (placing : Placing) (p q : Text) : Except Fault Ordering :=
  if placing.level p = placing.level q then naturalCompare (placing.name p) (placing.name q)
  else .ok (Ord.compare (placing.level p) (placing.level q))

/-- What a tab is sorted by: whether it has no path, its level, and the key of its name. -/
structure Standing where
  pathless : Bool
  level : Nat
  key : List Part
  deriving DecidableEq, Repr

def Standing.compare (a b : Standing) : Ordering :=
  (Ord.compare a.pathless b.pathless).then
    ((Ord.compare a.level b.level).then (compareKeys a.key b.key))

private instance : TransCmp fun a b : Standing => compareKeys a.key b.key where
  eq_swap {a b} := OrientedCmp.eq_swap (a := a.key) (b := b.key)
  isLE_trans := TransCmp.isLE_trans

instance : TransCmp Standing.compare :=
  inferInstanceAs (TransCmp (compareLex (compareOn Standing.pathless)
    (compareLex (compareOn Standing.level) fun a b => compareKeys a.key b.key)))

theorem naturalCompare_eq_ok_iff {a b : Text} :
    (∃ ordering, naturalCompare a b = .ok ordering) ↔ HasKey a ∧ HasKey b := by
  rw [naturalCompare, HasKey, HasKey]
  cases naturalKey a with
  | error fault => simp
  | ok keyA => cases naturalKey b <;> simp

namespace Placing

def standing (placing : Placing) (tab : Tab) : Standing :=
  match tab.file? with
  | none => { pathless := true, level := 0, key := [] }
  | some path =>
    { pathless := false, level := placing.level path, key := keyOf (placing.name path) }

def mayPrecede (placing : Placing) (a b : Tab) : Bool :=
  (Standing.compare (placing.standing a) (placing.standing b)).isLE

variable {placing : Placing} {compare : Text → Text → Except Fault Ordering} {tabs : List Tab}

theorem isByKey (hcompare : ∀ p ∈ Tab.files tabs, ∀ q ∈ Tab.files tabs,
      compare p q = placing.compare p q)
    (hkeys : ∀ path ∈ Tab.files tabs, HasKey (placing.name path)) :
    IsByKey (Comparison.ofPaths compare) Standing.compare placing.standing tabs := by
  intro a ha b hb
  simp only [Comparison.ofPaths, compareMissing, standing]
  cases hfileA : a.file? with
  | none => cases b.file? <;> rfl
  | some p =>
    cases hfileB : b.file? with
    | none => rfl
    | some q =>
      have hp : p ∈ Tab.files tabs := List.mem_filterMap.mpr ⟨a, ha, hfileA⟩
      have hq : q ∈ Tab.files tabs := List.mem_filterMap.mpr ⟨b, hb, hfileB⟩
      have hnatural := naturalCompare_of_naturalKey (naturalKey_eq_keyOf (hkeys p hp))
        (naturalKey_eq_keyOf (hkeys q hq))
      simp only [hcompare p hp q hq, Placing.compare, Standing.compare, ReflOrd.compare_self,
        Ordering.eq_then]
      split
      · next heq => rw [hnatural, heq, ReflOrd.compare_self, Ordering.eq_then]
      · next hne =>
        congr 1
        rcases Nat.lt_or_gt_of_ne hne with hlt | hgt
        · rw [Nat.compare_eq_lt.mpr hlt, Ordering.lt_then]
        · rw [Nat.compare_eq_gt.mpr hgt, Ordering.gt_then]

/-- Sorting by levels and names is the stable sort by standing. -/
theorem sortTabs_eq_mergeSort (hcompare : ∀ p ∈ Tab.files tabs, ∀ q ∈ Tab.files tabs,
      compare p q = placing.compare p q)
    (hkeys : ∀ path ∈ Tab.files tabs, HasKey (placing.name path)) :
    sortTabs (.ofPaths compare) tabs = .ok (tabs.mergeSort placing.mayPrecede) :=
  (isByKey hcompare hkeys).sortTabs_eq

def Comparable (placing : Placing) (p q : Text) : Prop :=
  placing.level p = placing.level q → HasKey (placing.name p) ∧ HasKey (placing.name q)

theorem exists_compare_iff {p q : Text} :
    (∃ ordering, placing.compare p q = .ok ordering) ↔ placing.Comparable p q := by
  rw [Placing.compare, Comparable]
  split
  · next heq => simp [heq, naturalCompare_eq_ok_iff]
  · next hne => simp [hne]

theorem Comparable.symm {p q : Text} (h : placing.Comparable p q) : placing.Comparable q p :=
  fun heq => (h heq.symm).symm

/-- Paths that stand next to each other after sorting do not fall in level, and can be compared. -/
theorem le_of_pathsMayMeet {p q : Text} (h : PathsMayMeet placing.compare p q) :
    placing.level p ≤ placing.level q ∧ placing.Comparable p q := by
  rcases h with hlt | ⟨ordering, heq, hne⟩
  · refine ⟨?_, exists_compare_iff.mp ⟨_, hlt⟩⟩
    rw [Placing.compare] at hlt
    split at hlt
    · next hlevel => exact hlevel.le
    · exact (Nat.compare_eq_lt.mp (Except.ok.inj hlt)).le
  · refine ⟨?_, (exists_compare_iff.mp ⟨_, heq⟩).symm⟩
    rw [Placing.compare] at heq
    split at heq
    · next hlevel => exact hlevel.ge
    · obtain rfl := Except.ok.inj heq
      exact Nat.le_of_not_lt fun hlt => hne (Nat.compare_eq_lt.mpr hlt)

/-- Sorting has a result exactly if any two paths can be compared. -/
theorem exists_sortTabs_iff (hcompare : ∀ p ∈ Tab.files tabs, ∀ q ∈ Tab.files tabs,
      compare p q = placing.compare p q) :
    (∃ sorted, sortTabs (.ofPaths compare) tabs = .ok sorted) ↔
      (Tab.files tabs).Pairwise placing.Comparable := by
  constructor
  · rintro ⟨sorted, hsort⟩
    have hperm : (Tab.files sorted).Perm (Tab.files tabs) := (perm_of_sortTabs hsort).filterMap _
    have hchain : (Tab.files sorted).IsChain fun p q =>
        placing.level p ≤ placing.level q ∧ placing.Comparable p q :=
      (isChain_files_of_sortTabs hsort).imp_of_mem_imp fun p q hp hq hmeet => by
        have hp' := hperm.mem_iff.mp hp
        have hq' := hperm.mem_iff.mp hq
        rw [PathsMayMeet, hcompare p hp' q hq', hcompare q hq' p hp'] at hmeet
        exact le_of_pathsMayMeet hmeet
    -- Between two paths on one level there are only paths on that level.
    have htrans : IsTrans Text fun p q =>
        placing.level p ≤ placing.level q ∧ placing.Comparable p q :=
      ⟨fun p q r hpq hqr => by
        have hlePQ := hpq.1
        have hleQR := hqr.1
        exact ⟨hlePQ.trans hleQR, fun heq => ⟨(hpq.2 (by omega)).1, (hqr.2 (by omega)).2⟩⟩⟩
    exact hperm.pairwise ((List.isChain_iff_pairwise.mp hchain).imp fun h => h.2) fun h => h.symm
  · intro h
    refine exists_sortTabs_ofPaths (h.imp_of_mem fun {p q} hp hq hpq => ?_)
    rw [hcompare p hp q hq, hcompare q hq p hp]
    exact ⟨exists_compare_iff.mpr hpq, exists_compare_iff.mpr hpq.symm⟩

end Placing

end EditorTabs.Order
