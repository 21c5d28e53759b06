import EditorTabs.Host.Memory
import EditorTabs.Proofs.Order.Faults
import EditorTabs.Proofs.Order.Place
import EditorTabs.Proofs.Order.Runs

/-!
# When the orders by names have a result

A name in which digits that are not decimal stand by themselves has no key. Alone it does no harm.
With another path beside it there is no alphabetical order, and no order by hierarchy if the two are
equally deep and neither is above the other. All other tabs are ordered, those without a path last.
-/
namespace EditorTabs.Order

variable {tabs : List Tab} {cwd : Text} {root : Option Text}

def Placing.alphabetical : Placing where
  level _ := 0
  name := id

theorem exists_alphabetical_iff :
    (∃ sorted, sortTabs alphabetical tabs = .ok sorted) ↔
      (Tab.files tabs).Pairwise fun p q => HasKey p ∧ HasKey q := by
  have hcompare : ∀ p ∈ Tab.files tabs, ∀ q ∈ Tab.files tabs,
      naturalCompare p q = Placing.alphabetical.compare p q := fun _ _ _ _ => rfl
  have hcomparable (p q : Text) : Placing.alphabetical.Comparable p q ↔ HasKey p ∧ HasKey q :=
    forall_prop_of_true rfl
  rw [alphabetical, Placing.exists_sortTabs_iff hcompare]
  exact List.Pairwise.iff hcomparable

/-- Whether nothing but names can decide between two paths. -/
def NamesDecide (a b : Text) : Prop :=
  pathDepth a = pathDepth b ∧ ¬ isAbove a b = true ∧ ¬ isAbove b a = true

theorem NamesDecide.symm {a b : Text} (h : NamesDecide a b) : NamesDecide b a :=
  ⟨h.1.symm, h.2.2, h.2.1⟩

theorem exists_compareSeen_iff {a b : Text} :
    (∃ ordering, compareSeen a b = .ok ordering) ↔ (NamesDecide a b → HasKey a ∧ HasKey b) := by
  by_cases hdepth : pathDepth a = pathDepth b
  · by_cases hab : isAbove a b = true
    · simp [compareSeen_of_isAbove hdepth hab, NamesDecide, hab]
    · by_cases hba : isAbove b a = true
      · simp [compareSeen_of_isAbove' hdepth hba, NamesDecide, hba]
      · simp [compareSeen_of_not_isAbove hdepth hab hba, naturalCompare_eq_ok_iff, NamesDecide,
          hdepth, hab, hba]
  · simp [compareSeen_of_depth_ne hdepth, NamesDecide, hdepth]

theorem exists_hierarchy (h : (seenFiles cwd root tabs).Pairwise fun p q =>
      NamesDecide p q → HasKey p ∧ HasKey q) :
    ∃ sorted, sortTabs (hierarchy cwd root) tabs = .ok sorted := by
  refine exists_sortTabs_ofPaths ((List.pairwise_map.mp h).imp fun hpq => ?_)
  exact ⟨exists_compareSeen_iff.mpr hpq, exists_compareSeen_iff.mpr fun hqp => (hpq hqp.symm).symm⟩

/-- Where no path is above another one at equal depth, all that keeps tabs from being ordered by
hierarchy is a path without a key beside one of its depth. -/
theorem exists_hierarchy_iff
    (h : ∀ p ∈ seenFiles cwd root tabs, ∀ q ∈ seenFiles cwd root tabs,
      pathDepth p = pathDepth q → ¬ isAbove p q = true) :
    (∃ sorted, sortTabs (hierarchy cwd root) tabs = .ok sorted) ↔
      (seenFiles cwd root tabs).Pairwise fun p q =>
        pathDepth p = pathDepth q → HasKey p ∧ HasKey q := by
  have hcompare : ∀ p ∈ Tab.files tabs, ∀ q ∈ Tab.files tabs,
      compareSeen (seenFrom cwd root p) (seenFrom cwd root q) =
        (Placing.hierarchy cwd root).compare p q := fun p hp q hq =>
    compareSeen_eq_compare fun hdepth =>
      ⟨h _ (List.mem_map_of_mem hp) _ (List.mem_map_of_mem hq) hdepth,
        h _ (List.mem_map_of_mem hq) _ (List.mem_map_of_mem hp) hdepth.symm⟩
  have hdepth (path : Text) : pathDepth (seenFrom cwd root path) =
      (Placing.hierarchy cwd root).level path := pathDepth_eq_count (forward_seenFrom path)
  rw [hierarchy, Placing.exists_sortTabs_iff hcompare, seenFiles, List.pairwise_map]
  exact List.Pairwise.iff fun p q => by rw [hdepth, hdepth]; rfl

/-- The tabs that sorting by paths gives. -/
theorem perm_and_eq_append_of_sortTabs {compare : Text → Text → Except Fault Ordering}
    {sorted : List Tab} (h : sortTabs (.ofPaths compare) tabs = .ok sorted) :
    sorted.Perm tabs ∧ sorted = sorted.filter (·.file? ≠ none) ++ tabs.filter (·.file? = none) :=
  ⟨perm_of_sortTabs h, sortTabs_eq_append h⟩

/-- An order by names has a result, which is the given tabs with those without a path last, or a
fault of a name without a key. There is an alphabetical order if no two paths are open of which one
has no key, and an order by hierarchy if no such paths have only their names to decide between
them. A name that is not too long has a key unless it holds digits alone that are not decimal. -/
theorem order_by_names_complete_iff (host : Host) (tabs : List Tab) (session : Session) :
    let seen := seenFiles host.workingDirectory host.root tabs
    (∀ strategy : Strategy, strategy ≠ .imports →
      match (strategy.order host tabs session).1 with
      | .ok sorted => sorted.Perm tabs ∧
          sorted = sorted.filter (·.file? ≠ none) ++ tabs.filter (·.file? = none)
      | .error fault => IsKeyFault fault) ∧
    ((∃ sorted, (Strategy.alphabetical.order host tabs session).1 = .ok sorted) ↔
      (Tab.files tabs).Pairwise fun p q => HasKey p ∧ HasKey q) ∧
    (seen.Pairwise (fun p q => NamesDecide p q → HasKey p ∧ HasKey q) →
      ∃ sorted, (Strategy.fileSystem.order host tabs session).1 = .ok sorted) ∧
    ((∀ p ∈ seen, ∀ q ∈ seen, pathDepth p = pathDepth q → ¬ isAbove p q = true) →
      ((∃ sorted, (Strategy.fileSystem.order host tabs session).1 = .ok sorted) ↔
        seen.Pairwise fun p q => pathDepth p = pathDepth q → HasKey p ∧ HasKey q)) ∧
    ∀ name : Text, name.length ≤ Json.digitLimit → (HasKey name ↔ ¬ HoldsLoneDigits name) := by
  intro seen
  refine ⟨fun strategy hne => ?_, exists_alphabetical_iff, exists_hierarchy, exists_hierarchy_iff,
    fun name => hasKey_iff_of_length_le⟩
  split
  · next sorted hsort =>
    cases strategy with
    | imports => exact absurd rfl hne
    | alphabetical => exact perm_and_eq_append_of_sortTabs hsort
    | fileSystem => exact perm_and_eq_append_of_sortTabs hsort
  · next fault hfault => exact Strategy.isKeyFault_of_order hne (Prod.ext hfault rfl)

/-- A raised digit at the end of a number, and a path to come before it. -/
def raised : List Tab := [{ path := some "/docs/10³" }, { path := some "/docs/9" }]

/-- With the second path one directory further down there is an order by hierarchy, but none by
name. -/
theorem order_by_names_complete_iff_of_lone_digits :
    let tabs : List Tab := [{ path := some "/docs/9/a" }, { path := none }, { path := some "/10³" }]
    let host := Memory.host {}
    ¬ HasKey "/10³" ∧
      (∃ sorted, (Strategy.fileSystem.order host tabs .fresh).1 = .ok sorted) ∧
      ¬ ∃ sorted, (Strategy.alphabetical.order host tabs .fresh).1 = .ok sorted := by
  intro tabs host
  have hkey : ¬ HasKey "/10³" := by decide +kernel
  obtain ⟨-, halphabetical, hhierarchy, -, -⟩ := order_by_names_complete_iff host tabs .fresh
  have hdepth : (seenFiles "/" none tabs).Pairwise (pathDepth · ≠ pathDepth ·) := by decide +kernel
  refine ⟨hkey, hhierarchy (hdepth.imp fun hne hdecide => absurd hdecide.1 hne), fun h => ?_⟩
  have hpair : ["/docs/9/a", "/10³"].Pairwise fun p q => HasKey p ∧ HasKey q := halphabetical.mp h
  exact hkey (List.rel_of_pairwise_cons hpair (by simp)).2

/-- Two short paths for which there is neither an alphabetical order nor one by hierarchy. -/
theorem raised_unordered :
    let host := Memory.host {}
    (∀ path ∈ Tab.files raised, path.length < Json.digitLimit) ∧
      (Strategy.alphabetical.order host raised .fresh).1 = .error (.notDecimal "³") ∧
      (Strategy.fileSystem.order host raised .fresh).1 = .error (.notDecimal "³") := by
  decide +kernel

end EditorTabs.Order
