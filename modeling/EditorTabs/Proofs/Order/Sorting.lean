import EditorTabs.Order.Comparison
import Mathlib.Data.List.Chain
import Mathlib.Data.List.Forall2
import Mathlib.Data.List.Perm.Subperm
import Mathlib.Data.List.Sort

/-!
# Sorting by a comparison

Whatever the comparison is, sorting gives a permutation of the tabs, or the fault of two of them.
Tabs that come to stand next to each other have been compared.
-/
namespace EditorTabs.Order

variable {compare : Comparison} {tab : Tab} {tabs sorted : List Tab} {fault : Fault}

section Outcome

variable {α β : Type} {f : α → β} {x : Except Fault α}

theorem map_eq_ok_iff {b : β} : x.map f = .ok b ↔ ∃ a, x = .ok a ∧ f a = b := by
  cases x <;> simp [Except.map]

theorem map_eq_error_iff : x.map f = .error fault ↔ x = .error fault := by
  cases x <;> simp [Except.map]

end Outcome

section Half

theorem eq_nil_of_drop_half (h : sorted.drop (sorted.length / 2) = []) : sorted = [] := by
  rw [List.drop_eq_nil_iff] at h
  exact List.eq_nil_of_length_eq_zero (by omega)

theorem eq_of_drop {n : Nat} {middle : Tab} {after : List Tab}
    (h : sorted.drop n = middle :: after) : sorted = sorted.take n ++ middle :: after := by
  rw [← h, List.take_append_drop]

end Half

section Steps

/-- A tab is placed between neighbours that it was compared with. -/
theorem exists_of_place {placed : List Tab} (h : place compare tab sorted = .ok placed) :
    ∃ front back, sorted = front ++ back ∧ placed = front ++ tab :: back ∧
      (∀ a ∈ front.getLast?, comesFirst compare tab a = .ok false) ∧
      ∀ b ∈ back.head?, comesFirst compare tab b = .ok true := by
  fun_induction place compare tab sorted generalizing placed with
  | case1 sorted hhalf =>
    cases h
    exact ⟨[], [], eq_nil_of_drop_half hhalf, rfl, by simp, by simp⟩
  | case2 => cases h
  | case3 sorted middle after hhalf hfirst ih =>
    obtain ⟨placed', hplaced, rfl⟩ := map_eq_ok_iff.mp h
    obtain ⟨front, back, hbefore, rfl, hfront, hback⟩ := ih hplaced
    refine ⟨front, back ++ middle :: after, ?_, by simp, hfront, fun b hb => ?_⟩
    · rw [eq_of_drop hhalf, hbefore, List.append_assoc]
    · cases back with
      | nil =>
        obtain rfl : middle = b := by simpa using hb
        exact hfirst
      | cons c back => exact hback b hb
  | case4 sorted middle after hhalf hfirst ih =>
    obtain ⟨placed', hplaced, rfl⟩ := map_eq_ok_iff.mp h
    obtain ⟨front, back, rfl, rfl, hfront, hback⟩ := ih hplaced
    refine ⟨sorted.take (sorted.length / 2) ++ middle :: front, back, ?_, by simp, fun a ha => ?_,
      hback⟩
    · rw [List.append_assoc, List.cons_append, ← eq_of_drop hhalf]
    · rw [List.getLast?_append_of_ne_nil _ (by simp)] at ha
      cases front with
      | nil =>
        obtain rfl : middle = a := by simpa using ha
        exact hfirst
      | cons c front => exact hfront a (by simpa [List.getLast?_cons_cons] using ha)

/-- A run goes on as long as the answers are the same. -/
theorem isChain_of_extendRun {falling : Bool} {last : Tab} {run others : List Tab}
    (h : extendRun compare falling last tabs = .ok (run, others)) :
    run ++ others = tabs ∧
      (last :: run).IsChain fun a b => comesFirst compare b a = .ok falling := by
  induction tabs generalizing last run with
  | nil =>
    cases h
    exact ⟨rfl, .singleton last⟩
  | cons tab rest ih =>
    rw [extendRun] at h
    split at h
    · cases h
    next first hfirst =>
    split at h
    · next hfalling =>
      obtain ⟨⟨run, others⟩, hrest, heq⟩ := map_eq_ok_iff.mp h
      cases heq
      obtain ⟨happend, hchain⟩ := ih hrest
      exact ⟨congrArg (tab :: ·) happend, hchain.cons_cons (hfalling ▸ hfirst)⟩
    · cases h
      exact ⟨rfl, .singleton last⟩

/-- The run at the start of a list, before it is turned around. -/
theorem exists_of_firstRun {first others : List Tab}
    (h : firstRun compare tabs = .ok (first, others)) :
    ∃ falling run, run ++ others = tabs ∧
      (run.IsChain fun a b => comesFirst compare b a = .ok falling) ∧
      first = if falling then run.reverse else run := by
  rw [firstRun.eq_def] at h
  split at h
  · next head second rest =>
    split at h
    · cases h
    next falling hfalling =>
    obtain ⟨⟨run, others⟩, hrun, heq⟩ := map_eq_ok_iff.mp h
    cases heq
    obtain ⟨happend, hchain⟩ := isChain_of_extendRun hrun
    refine ⟨falling, head :: second :: run, ?_, hchain.cons_cons hfalling, rfl⟩
    rw [← happend]
    rfl
  · next hshort =>
    cases h
    refine ⟨false, tabs, List.append_nil tabs, ?_, rfl⟩
    match tabs, hshort with
    | [], _ => exact .nil
    | [tab], _ => exact .singleton tab
    | head :: second :: rest, hshort => exact absurd rfl (hshort head second rest)

/-- What placing one tab keeps, placing several keeps. -/
theorem foldlM_place_induction {P : List Tab → List Tab → Prop} {rest sorted' : List Tab}
    (step : ∀ {tab : Tab} {sorted placed rest : List Tab}, place compare tab sorted = .ok placed →
      P sorted (tab :: rest) → P placed rest)
    (h : rest.foldlM (fun sorted tab => place compare tab sorted) sorted = .ok sorted')
    (hsorted : P sorted rest) : P sorted' [] := by
  induction rest generalizing sorted with
  | nil =>
    cases h
    exact hsorted
  | cons tab rest ih =>
    rw [List.foldlM_cons] at h
    cases hplace : place compare tab sorted with
    | error fault =>
      rw [hplace] at h
      cases h
    | ok placed =>
      rw [hplace] at h
      exact ih h (step hplace hsorted)

end Steps

section Permutation

theorem perm_of_place {placed : List Tab} (h : place compare tab sorted = .ok placed) :
    placed.Perm (tab :: sorted) := by
  obtain ⟨front, back, rfl, rfl, -, -⟩ := exists_of_place h
  exact List.perm_middle

/-- A tab that is placed was the first of those left. -/
theorem perm_of_place_append {placed : List Tab} (h : place compare tab sorted = .ok placed)
    (rest : List Tab) : (placed ++ rest).Perm (sorted ++ tab :: rest) :=
  ((perm_of_place h).append_right rest).trans List.perm_middle.symm

theorem perm_of_firstRun {run others : List Tab} (h : firstRun compare tabs = .ok (run, others)) :
    (run ++ others).Perm tabs := by
  obtain ⟨falling, run, rfl, -, rfl⟩ := exists_of_firstRun h
  cases falling with
  | true => exact (List.reverse_perm run).append_right others
  | false => exact .rfl

theorem perm_of_foldlM_place {rest sorted' : List Tab}
    (h : rest.foldlM (fun sorted tab => place compare tab sorted) sorted = .ok sorted') :
    sorted'.Perm (sorted ++ rest) := by
  have hperm : (sorted' ++ []).Perm (sorted ++ rest) :=
    foldlM_place_induction (P := fun left rest' => (left ++ rest').Perm (sorted ++ rest))
      (fun hplace => (perm_of_place_append hplace _).trans) h .rfl
  rwa [List.append_nil] at hperm

/-- Whatever the comparison is, nothing is lost and nothing comes twice. -/
theorem perm_of_sortTabs (h : sortTabs compare tabs = .ok sorted) : sorted.Perm tabs := by
  rw [sortTabs] at h
  split at h
  · cases h
  · next hrun => exact (perm_of_foldlM_place h).trans (perm_of_firstRun hrun)

end Permutation

section Faults

theorem exists_of_place_error (h : place compare tab sorted = .error fault) :
    ∃ other ∈ sorted, compare tab other = .error fault := by
  fun_induction place compare tab sorted with
  | case1 => cases h
  | case2 sorted middle after hhalf fault' hfirst =>
    cases h
    exact ⟨middle, eq_of_drop hhalf ▸ by simp, map_eq_error_iff.mp hfirst⟩
  | case3 sorted middle after hhalf hfirst ih =>
    obtain ⟨other, hother, hfault⟩ := ih (map_eq_error_iff.mp h)
    exact ⟨other, List.mem_of_mem_take hother, hfault⟩
  | case4 sorted middle after hhalf hfirst ih =>
    obtain ⟨other, hother, hfault⟩ := ih (map_eq_error_iff.mp h)
    exact ⟨other, eq_of_drop hhalf ▸ by simp [hother], hfault⟩

theorem pair_subperm (a b : Tab) (rest : List Tab) : [b, a].Subperm (a :: b :: rest) :=
  (List.Perm.swap a b []).subperm.trans (List.sublist_append_left [a, b] rest).subperm

theorem exists_of_extendRun_error {falling : Bool} {last : Tab}
    (h : extendRun compare falling last tabs = .error fault) :
    ∃ a b, [a, b].Subperm (last :: tabs) ∧ compare a b = .error fault := by
  induction tabs generalizing last with
  | nil => cases h
  | cons tab rest ih =>
    rw [extendRun] at h
    split at h
    · next hfirst =>
      cases h
      exact ⟨tab, last, pair_subperm last tab rest, map_eq_error_iff.mp hfirst⟩
    split at h
    · obtain ⟨a, b, hpair, hfault⟩ := ih (map_eq_error_iff.mp h)
      exact ⟨a, b, hpair.trans (List.sublist_cons_self last _).subperm, hfault⟩
    · cases h

theorem exists_of_firstRun_error (h : firstRun compare tabs = .error fault) :
    ∃ a b, [a, b].Subperm tabs ∧ compare a b = .error fault := by
  rw [firstRun.eq_def] at h
  split at h
  · next first second rest =>
    split at h
    · next hfirst =>
      cases h
      exact ⟨second, first, pair_subperm first second rest, map_eq_error_iff.mp hfirst⟩
    · obtain ⟨a, b, hpair, hfault⟩ := exists_of_extendRun_error (map_eq_error_iff.mp h)
      exact ⟨a, b, hpair.trans (List.sublist_cons_self first _).subperm, hfault⟩
  · cases h

theorem exists_of_foldlM_place_error {rest : List Tab}
    (h : rest.foldlM (fun sorted tab => place compare tab sorted) sorted = .error fault) :
    ∃ a b, [a, b].Subperm (sorted ++ rest) ∧ compare a b = .error fault := by
  induction rest generalizing sorted with
  | nil => cases h
  | cons tab rest ih =>
    rw [List.foldlM_cons] at h
    cases hplace : place compare tab sorted with
    | error fault' =>
      rw [hplace] at h
      cases h
      obtain ⟨other, hother, hfault⟩ := exists_of_place_error hplace
      have hpair : [other, tab].Sublist (sorted ++ tab :: rest) :=
        (List.singleton_sublist.mpr hother).append (List.singleton_sublist.mpr (by simp))
      exact ⟨tab, other, (List.Perm.swap other tab []).subperm.trans hpair.subperm, hfault⟩
    | ok placed =>
      rw [hplace] at h
      obtain ⟨a, b, hpair, hfault⟩ := ih h
      exact ⟨a, b, hpair.trans (perm_of_place_append hplace rest).subperm, hfault⟩

/-- Sorting fails only when two of the tabs, at different places, cannot be compared. -/
theorem exists_subperm_of_sortTabs_error (h : sortTabs compare tabs = .error fault) :
    ∃ a b, [a, b].Subperm tabs ∧ compare a b = .error fault := by
  rw [sortTabs] at h
  split at h
  · next hrun =>
    cases h
    exact exists_of_firstRun_error hrun
  · next hrun =>
    obtain ⟨a, b, hpair, hfault⟩ := exists_of_foldlM_place_error h
    exact ⟨a, b, hpair.trans (perm_of_firstRun hrun).subperm, hfault⟩

theorem exists_of_sortTabs_error (h : sortTabs compare tabs = .error fault) :
    ∃ a ∈ tabs, ∃ b ∈ tabs, compare a b = .error fault := by
  obtain ⟨a, b, hpair, hfault⟩ := exists_subperm_of_sortTabs_error h
  exact ⟨a, hpair.subset (by simp), b, hpair.subset (by simp), hfault⟩

end Faults

end EditorTabs.Order
